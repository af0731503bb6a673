import IndexedLoop.Proofs.Utf8
import Mathlib

/-!
# The bytes of a source

Reading bytes as symbols loses none of them (`Utf8.bytes_decode`), and reads the bytes of a text as its characters
(`Utf8.decode_encode`). Symbols in a row whose own bytes are a text are characters, whatever stands around them
(`Utf8.isChar_of_noFault`). A byte that belongs to no character is none of the first 128, so the line feeds among
the bytes are the line feeds among the symbols.
-/

namespace IndexedLoop

namespace Utf8

/-- The bytes of a text. -/
def encode (text : String) : List UInt8 := text.toByteArray.data.toList

theorem encode_eq (text : String) : encode text = text.toList.flatMap String.utf8EncodeChar := by
  rw [encode, ← String.utf8Encode_toList, List.utf8Encode, List.toList_data_toByteArray]

/-! ## Single characters -/

theorem encodeChar_ofNat {n : Nat} (valid : n.isValidChar) : String.utf8EncodeChar (Char.ofNat n) =
    if n ≤ 127 then [UInt8.ofNat n]
    else if n ≤ 2047 then [UInt8.ofNat (n / 64 % 32 + 192), UInt8.ofNat (n % 64 + 128)]
    else if n ≤ 65535 then
      [UInt8.ofNat (n / 4096 % 16 + 224), UInt8.ofNat (n / 64 % 64 + 128), UInt8.ofNat (n % 64 + 128)]
    else
      [UInt8.ofNat (n / 262144 % 8 + 240), UInt8.ofNat (n / 4096 % 64 + 128), UInt8.ofNat (n / 64 % 64 + 128),
        UInt8.ofNat (n % 64 + 128)] := by
  have toNat : (Char.ofNat n).val.toNat = n := by
    exact (Char.toNat_ofNat n).trans (if_pos valid)
  rw [String.utf8EncodeChar, toNat]

theorem range_of_width (b : UInt8) : (width b = 1 → b.toNat ≤ 0x7F) ∧
    (width b = 2 → 0xC2 ≤ b.toNat ∧ b.toNat ≤ 0xDF) ∧ (width b = 3 → 0xE0 ≤ b.toNat ∧ b.toNat ≤ 0xEF) ∧
    (width b = 4 → 0xF0 ≤ b.toNat ∧ b.toNat ≤ 0xF4) := by
  rw [width_eq]
  refine ⟨?_, ?_, ?_, ?_⟩
  all_goals
    intro h
    split_ifs at h <;> omega

/-- The character at the start of bytes is written with these bytes. -/
theorem encodeChar_of_head {b : UInt8} {rest : List UInt8} {c : Char} {size : Nat} (h : head b rest = .char c size) :
    ∃ more tail, rest = more ++ tail ∧ size = more.length + 1 ∧ String.utf8EncodeChar c = b :: more := by
  have same {n : Nat} {x : UInt8} (e : n = x.toNat) : UInt8.ofNat n = x := by rw [e, UInt8.ofNat_toNat]
  obtain ⟨range1, range2, range3, range4⟩ := range_of_width b
  unfold head at h
  split at h
  · next one =>
    cases h
    have range := range1 one
    refine ⟨[], _, rfl, rfl, ?_⟩
    rw [encodeChar_ofNat (.inl (by omega)), if_pos range, same rfl]
  · next b1 tail two =>
    split at h
    · next second =>
      cases h
      have range := range2 two
      have second := (secondByteOk_iff _ _).mp second
      refine ⟨[b1], tail, rfl, rfl, ?_⟩
      rw [payload, encodeChar_ofNat (.inl (by omega)), if_neg (by omega), if_pos (by omega),
        same (x := b) (by omega), same (x := b1) (by omega)]
    · cases h
  · split at h <;> cases h
  · next b1 b2 tail three =>
    split at h
    · cases h
    · next second =>
      split at h
      · cases h
      · next third =>
        cases h
        have range := range3 three
        have second := (secondByteOk_iff _ _).mp (not_not.mp second)
        have third := (isContinuation_iff _).mp (not_not.mp third)
        refine ⟨[b1, b2], tail, rfl, rfl, ?_⟩
        rw [payload, payload, encodeChar_ofNat (by rw [Nat.isValidChar]; omega), if_neg (by omega), if_neg (by omega),
          if_pos (by omega), same (x := b) (by omega), same (x := b1) (by omega), same (x := b2) (by omega)]
  · split at h <;> cases h
  · split at h
    · cases h
    · split at h <;> cases h
  · next b1 b2 b3 tail four =>
    split at h
    · cases h
    · next second =>
      split at h
      · cases h
      · next third =>
        split at h
        · cases h
        · next fourth =>
          cases h
          have range := range4 four
          have second := (secondByteOk_iff _ _).mp (not_not.mp second)
          have third := (isContinuation_iff _).mp (not_not.mp third)
          have fourth := (isContinuation_iff _).mp (not_not.mp fourth)
          refine ⟨[b1, b2, b3], tail, rfl, rfl, ?_⟩
          rw [payload, payload, payload, encodeChar_ofNat (by rw [Nat.isValidChar]; omega), if_neg (by omega),
            if_neg (by omega), if_neg (by omega), same (x := b) (by omega), same (x := b1) (by omega),
            same (x := b2) (by omega), same (x := b3) (by omega)]
  · cases h
  · cases h

/-! ## Bytes and symbols -/

theorem decodeFrom_skip (xs rest : List UInt8) : decodeFrom xs.length (xs ++ rest) = decodeFrom 0 rest := by
  induction xs with
  | nil => rfl
  | cons x xs ih => exact ih

/-- The bytes of a text read as its characters. -/
theorem decode_encode (text : String) : decode (encode text) = Symbol.ofString text := by
  rw [encode_eq, decode, Symbol.ofString]
  induction text.toList with
  | nil => rfl
  | cons c cs ih =>
    obtain ⟨b, more, e, read⟩ := head_char c
    rw [List.flatMap_cons, e, List.cons_append, decodeFrom, read]
    exact congrArg (Symbol.char c :: ·) ((decodeFrom_skip more _).trans ih)

/-- No byte is lost in reading. -/
theorem bytes_decodeFrom (n : Nat) (bytes : List UInt8) :
    (decodeFrom n bytes).flatMap Symbol.bytes = bytes.drop n := by
  induction bytes generalizing n with
  | nil => cases n <;> rfl
  | cons b rest ih =>
    cases n with
    | succ n => exact ih n
    | zero =>
      rw [decodeFrom]
      split
      · next c size read =>
        obtain ⟨more, tail, rfl, rfl, e⟩ := encodeChar_of_head read
        rw [List.flatMap_cons, ih, Symbol.bytes, e]
        simp
      · rw [List.flatMap_cons, ih]
        rfl

theorem bytes_decode (bytes : List UInt8) : (decode bytes).flatMap Symbol.bytes = bytes :=
  bytes_decodeFrom 0 bytes

/-- A byte that belongs to no character is none of the first 128. -/
theorem stray_of_mem_decodeFrom {n : Nat} {bytes : List UInt8} {b : UInt8} (h : .stray b ∈ decodeFrom n bytes) :
    0x7F < b.toNat := by
  induction bytes generalizing n with
  | nil => cases n <;> cases h
  | cons x rest ih =>
    cases n with
    | succ n => exact ih h
    | zero =>
      rw [decodeFrom] at h
      split at h
      · rcases List.mem_cons.mp h with e | h
        · cases e
        · exact ih h
      · next other =>
        rcases List.mem_cons.mp h with e | h
        · cases e
          by_contra small
          exact other _ _ (head_one (by omega) rest)
        · exact ih h

theorem stray_of_mem_decode {bytes : List UInt8} {b : UInt8} (h : .stray b ∈ decode bytes) : 0x7F < b.toNat :=
  stray_of_mem_decodeFrom h

/-! ## Parts of a source -/

/-- The character at the start of bytes is there whatever follows them. -/
theorem head_append {b : UInt8} {xs : List UInt8} {c : Char} {size : Nat} (h : head b xs = .char c size)
    (ys : List UInt8) : head b (xs ++ ys) = .char c size := by
  obtain ⟨more, tail, rfl, rfl, e⟩ := encodeChar_of_head h
  obtain ⟨b', more', e', read⟩ := head_char c
  obtain ⟨rfl, rfl⟩ := List.cons.inj (e.symm.trans e')
  rw [List.append_assoc]
  exact read _

/-- What follows symbols that were read from bytes was read from bytes too. -/
theorem decode_drop {bytes : List UInt8} {before rest : List Symbol} (h : decode bytes = before ++ rest) :
    ∃ more, decode more = rest := by
  have drop (n : Nat) (bytes : List UInt8) : decodeFrom n bytes = decodeFrom 0 (bytes.drop n) := by
    induction bytes generalizing n with
    | nil => cases n <;> rfl
    | cons b bytes ih => cases n <;> [rfl; exact ih _]
  induction before generalizing bytes with
  | nil => exact ⟨bytes, h⟩
  | cons x before ih =>
    cases bytes with
    | nil => cases h
    | cons b bytes =>
      rw [decode, decodeFrom] at h
      split at h
      · rw [drop] at h
        exact ih (List.cons.inj h).2
      · exact ih (List.cons.inj h).2

/-- Symbols at the start of bytes whose own bytes have no fault are characters. -/
theorem isChar_of_noFault {bytes : List UInt8} {symbols rest : List Symbol} (h : decode bytes = symbols ++ rest)
    {index : Nat} (noFault : firstFaultFrom index 0 (symbols.flatMap Symbol.bytes) = none) :
    ∀ x ∈ symbols, x.char?.isSome = true := by
  induction symbols generalizing bytes index with
  | nil => exact nofun
  | cons x symbols ih =>
    obtain ⟨more, behind⟩ := decode_drop (show decode bytes = [x] ++ (symbols ++ rest) from h)
    cases x with
    | char c =>
      obtain ⟨b, tail, e, read⟩ := head_char c
      rw [List.flatMap_cons, Symbol.bytes, e, List.cons_append, firstFaultFrom, read] at noFault
      rw [List.forall_mem_cons]
      exact ⟨rfl, ih behind ((firstFaultFrom_skip tail _ _).symm.trans noFault)⟩
    | stray b =>
      cases bytes with
      | nil => cases h
      | cons b' bytes =>
        rw [decode, decodeFrom] at h
        split at h
        · cases h
        · next other =>
          obtain ⟨same, behind⟩ := List.cons.inj h
          cases same
          -- the byte starts no character with all that follows it, and so none with less
          have bytes_eq : bytes = symbols.flatMap Symbol.bytes ++ rest.flatMap Symbol.bytes := by
            rw [← List.flatMap_append, ← show decode bytes = symbols ++ rest from behind, bytes_decode]
          rw [List.flatMap_cons] at noFault
          change firstFaultFrom index 0 (b :: symbols.flatMap Symbol.bytes) = none at noFault
          rw [firstFaultFrom] at noFault
          split at noFault
          · next read => exact (other _ _ (bytes_eq ▸ head_append read _)).elim
          · cases noFault
          · cases noFault

/-! ## Line feeds -/

/-- Of all characters only a line feed is written with the byte of a line feed. -/
theorem eq_newline_of_mem {c : Char} (h : 10 ∈ String.utf8EncodeChar c) : c = '\n' := by
  have value {n : Nat} (e : 10 = UInt8.ofNat n) : n % 256 = 10 := by simpa using (congrArg UInt8.toNat e).symm
  have valid : c.toNat.isValidChar := c.valid
  rw [← Char.ofNat_toNat c, encodeChar_ofNat valid] at h
  split_ifs at h
  all_goals simp only [List.mem_cons, List.not_mem_nil, or_false] at h
  · have e : c.toNat = 10 := by
      have := value h
      omega
    rw [← Char.ofNat_toNat c, e]
  · rcases h with h | h <;> exact absurd (value h) (by omega)
  · rcases h with h | h | h <;> exact absurd (value h) (by omega)
  · rcases h with h | h | h | h <;> exact absurd (value h) (by omega)

end Utf8

namespace Symbol

theorem length_bytes (x : Symbol) : x.bytes.length = x.size := by
  cases x with
  | char c => exact String.length_utf8EncodeChar c
  | stray b => rfl

theorem toText_ofString (s : String) : toText (ofString s) = .ok s := by
  rw [ofString, toText_chars, String.ofList_toList]

theorem bytes_ofString (s : String) : (ofString s).flatMap bytes = Utf8.encode s := by
  rw [ofString, List.flatMap_map, Utf8.encode_eq]
  rfl

end Symbol

end IndexedLoop
