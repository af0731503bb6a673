import IndexedLoop.Text.Utf8

/-!
# The bytes of characters

The bytes of a character read as that character, whatever follows (`Utf8.head_char`), so the bytes of
characters have no fault, and the text of characters is the text they make up (`Symbol.toText_chars`).
-/

namespace IndexedLoop

namespace Utf8

theorem width_eq (b : UInt8) : width b =
    if b.toNat ≤ 0x7F then 1
    else if 0xC2 ≤ b.toNat ∧ b.toNat ≤ 0xDF then 2
    else if 0xE0 ≤ b.toNat ∧ b.toNat ≤ 0xEF then 3
    else if 0xF0 ≤ b.toNat ∧ b.toNat ≤ 0xF4 then 4 else 0 := by
  simp only [width, Bool.and_eq_true, decide_eq_true_eq, UInt8.le_iff_toNat_le]
  rfl

theorem isContinuation_iff (b : UInt8) : isContinuation b = true ↔ 0x80 ≤ b.toNat ∧ b.toNat ≤ 0xBF := by
  simp only [isContinuation, Bool.and_eq_true, decide_eq_true_eq, UInt8.le_iff_toNat_le]
  rfl

theorem secondByteOk_iff (b next : UInt8) : secondByteOk b next = true ↔
    0x80 ≤ next.toNat ∧ next.toNat ≤ 0xBF ∧ (b.toNat = 0xE0 → 0xA0 ≤ next.toNat) ∧
      (b.toNat = 0xED → next.toNat ≤ 0x9F) ∧ (b.toNat = 0xF0 → 0x90 ≤ next.toNat) ∧
      (b.toNat = 0xF4 → next.toNat ≤ 0x8F) := by
  have eq (n : UInt8) : b = n ↔ b.toNat = n.toNat := UInt8.toNat_inj.symm
  simp only [secondByteOk, eq, UInt8.reduceToNat]
  repeat' split
  all_goals
    simp only [isContinuation_iff, Bool.and_eq_true, decide_eq_true_eq, UInt8.le_iff_toNat_le,
      UInt8.reduceToNat]
    omega

theorem head_one {b : UInt8} (h : b.toNat ≤ 0x7F) (rest : List UInt8) :
    head b rest = .char (Char.ofNat b.toNat) 1 := by
  have : width b = 1 := by rw [width_eq, if_pos h]
  simp [head, this]

theorem head_two {b b1 : UInt8} (h : 0xC2 ≤ b.toNat ∧ b.toNat ≤ 0xDF)
    (second : secondByteOk b b1 = true) (rest : List UInt8) :
    head b (b1 :: rest) = .char (Char.ofNat (b.toNat % 32 * 64 + payload b1)) 2 := by
  have : width b = 2 := by rw [width_eq, if_neg (by omega), if_pos h]
  simp [head, this, second]

theorem head_three {b b1 b2 : UInt8} (h : 0xE0 ≤ b.toNat ∧ b.toNat ≤ 0xEF)
    (second : secondByteOk b b1 = true) (third : isContinuation b2 = true) (rest : List UInt8) :
    head b (b1 :: b2 :: rest) =
      .char (Char.ofNat ((b.toNat % 16 * 64 + payload b1) * 64 + payload b2)) 3 := by
  have : width b = 3 := by rw [width_eq, if_neg (by omega), if_neg (by omega), if_pos h]
  simp [head, this, second, third]

theorem head_four {b b1 b2 b3 : UInt8} (h : 0xF0 ≤ b.toNat ∧ b.toNat ≤ 0xF4)
    (second : secondByteOk b b1 = true) (third : isContinuation b2 = true)
    (fourth : isContinuation b3 = true) (rest : List UInt8) : head b (b1 :: b2 :: b3 :: rest) =
      .char (Char.ofNat (((b.toNat % 8 * 64 + payload b1) * 64 + payload b2) * 64 + payload b3)) 4 := by
  have : width b = 4 := by
    rw [width_eq, if_neg (by omega), if_neg (by omega), if_neg (by omega), if_pos h]
  simp [head, this, second, third, fourth]

/-- The bytes of a character read as the character. -/
theorem head_char (c : Char) : ∃ b more, String.utf8EncodeChar c = b :: more ∧
    ∀ rest, head b (more ++ rest) = .char c (more.length + 1) := by
  have valid : c.toNat < 0xD800 ∨ 0xDFFF < c.toNat ∧ c.toNat < 0x110000 := c.valid
  have ofNat {n : Nat} (h : n = c.toNat) : Char.ofNat n = c := by rw [h, Char.ofNat_toNat]
  have toNat {n : Nat} (h : n < 256) : (UInt8.ofNat n).toNat = n := UInt8.toNat_ofNat_of_lt h
  unfold String.utf8EncodeChar
  generalize hv : c.toNat = v at valid ofNat
  simp only [show c.val.toNat = v from hv]
  split
  · refine ⟨_, _, rfl, fun rest => ?_⟩
    rw [List.nil_append, head_one (by rw [toNat (by omega)]; omega), toNat (by omega), ofNat rfl]
    rfl
  split
  · refine ⟨_, _, rfl, fun rest => ?_⟩
    rw [List.cons_append, head_two, toNat (by omega), payload, toNat (by omega), ofNat (by omega)]
    · rfl
    · rw [toNat (by omega)]
      omega
    · rw [secondByteOk_iff, toNat (by omega), toNat (by omega)]
      omega
  split
  · refine ⟨_, _, rfl, fun rest => ?_⟩
    rw [List.cons_append, List.cons_append, head_three, toNat (by omega), payload, payload,
      toNat (by omega), toNat (by omega), ofNat (by omega)]
    · rfl
    · rw [toNat (by omega)]
      omega
    · rw [secondByteOk_iff, toNat (by omega), toNat (by omega)]
      omega
    · rw [isContinuation_iff, toNat (by omega)]
      omega
  · refine ⟨_, _, rfl, fun rest => ?_⟩
    rw [List.cons_append, List.cons_append, List.cons_append, head_four, toNat (by omega), payload,
      payload, payload, toNat (by omega), toNat (by omega), toNat (by omega), ofNat (by omega)]
    · rfl
    · rw [toNat (by omega)]
      omega
    · rw [secondByteOk_iff, toNat (by omega), toNat (by omega)]
      omega
    · rw [isContinuation_iff, toNat (by omega)]
      omega
    · rw [isContinuation_iff, toNat (by omega)]
      omega

theorem firstFaultFrom_skip (xs rest : List UInt8) (index : Nat) :
    firstFaultFrom index xs.length (xs ++ rest) = firstFaultFrom (index + xs.length) 0 rest := by
  induction xs generalizing index with
  | nil => rfl
  | cons x xs ih =>
    rw [List.length_cons, List.cons_append, firstFaultFrom, ih]
    congr 1
    omega

/-- The bytes of characters have no fault. -/
theorem firstFaultFrom_chars (cs : List Char) (index : Nat) :
    firstFaultFrom index 0 (cs.flatMap String.utf8EncodeChar) = none := by
  induction cs generalizing index with
  | nil => rfl
  | cons c cs ih =>
    obtain ⟨b, more, e, read⟩ := head_char c
    rw [List.flatMap_cons, e, List.cons_append, firstFaultFrom, read]
    exact (firstFaultFrom_skip more _ _).trans (ih _)

end Utf8

/-- The text of characters is the text they make up. -/
theorem Symbol.toText_chars (cs : List Char) : toText (cs.map .char) = .ok (String.ofList cs) := by
  have bytes : (cs.map Symbol.char).flatMap Symbol.bytes = cs.flatMap String.utf8EncodeChar := by
    rw [List.flatMap_map]
    rfl
  have chars : (cs.map Symbol.char).filterMap Symbol.char? = cs := by
    rw [List.filterMap_map]
    exact List.filterMap_some
  rw [toText, bytes, Utf8.firstFault?, Utf8.firstFaultFrom_chars, chars]

end IndexedLoop
