import IndexedLoop.Proofs.Extents.Source
import IndexedLoop.Proofs.RoundTrip.Tokens

/-!
# Tokens at their places

The next token of a cursor that stands in a source stands in the source too, not before the cursor, and its
extent spells what the token says of its text (`Cursor.On.lexeme`). A word holds characters only, so its text
is its name.
-/

namespace IndexedLoop

/-! ## Words -/

namespace Symbol

/-- The symbol is a character. -/
def IsChar (x : Symbol) : Prop := x.char?.isSome = true

theorem isChar_of_satisfies {p : Char → Bool} {x : Symbol} (h : x.satisfies p = true) : x.IsChar := by
  cases x with
  | char c => rfl
  | stray b => cases h

/-- Characters are the text that they make up. -/
theorem ofString_textOf {s : List Symbol} (h : ∀ x ∈ s, x.IsChar) : ofString (Token.textOf s) = s := by
  rw [ofString, Token.textOf, String.toList_ofList]
  induction s with
  | nil => rfl
  | cons x s ih =>
    rw [List.forall_mem_cons] at h
    cases x with
    | char c =>
      rw [List.filterMap_cons]
      exact congrArg (Symbol.char c :: ·) (ih h.2)
    | stray b => cases h.1

end Symbol

namespace Lexical

variable {s : List Symbol} {n : Nat}

theorem take_eq_of_startsWith {w : String} (h : startsWith w.toList s = true) :
    s.take w.length = Symbol.ofString w := by
  have starts := List.prefix_iff_eq_take.mp ((startsWith_iff _ _).mp h)
  rw [List.length_map, String.length_toList] at starts
  exact starts.symm

theorem satisfies_of_mem_runLength {p : Symbol → Bool} {x : Symbol} (h : x ∈ s.take (runLength p s)) : p x = true := by
  induction s with
  | nil => simp [runLength] at h
  | cons y s ih =>
    rw [runLength] at h
    split at h
    · next hy =>
      rw [Nat.add_comm, List.take_succ_cons, List.mem_cons] at h
      rcases h with rfl | h
      · exact hy
      · exact ih h
    · simp at h

theorem isChar_bracedHex (h : bracedHex? s = some n) : ∀ x ∈ s.take n, x.IsChar := by
  simp only [bracedHex?, Option.ite_none_right_eq_some, Option.some.injEq] at h
  obtain ⟨⟨-, brace⟩, rfl⟩ := h
  rw [startsWith_iff] at brace
  obtain ⟨rest, e⟩ := brace
  intro x hx
  rw [List.take_add, List.mem_append] at hx
  rcases hx with hx | hx
  · exact Symbol.isChar_of_satisfies (satisfies_of_mem_runLength hx)
  · rw [← e] at hx
    simp only [List.map_cons, List.map_nil, List.cons_append, List.nil_append, List.take_succ_cons,
      List.take_zero, List.mem_singleton] at hx
    rw [hx]
    rfl

theorem isChar_unicodeEscape (h : unicodeEscape? s = some n) : ∀ x ∈ s.take n, x.IsChar := by
  unfold unicodeEscape? at h
  split at h
  · next four =>
    cases h
    intro x hx
    exact Symbol.isChar_of_satisfies (List.all_eq_true.mp four.2 x hx)
  · split at h
    · next rest =>
      obtain ⟨m, hm, rfl⟩ := Option.map_eq_some_iff.mp h
      rw [Nat.add_comm, List.take_succ_cons, List.forall_mem_cons]
      exact ⟨rfl, isChar_bracedHex hm⟩
    · cases h

theorem isChar_wordPiece (s : List Symbol) : ∀ x ∈ s.take (wordPiece s), x.IsChar := by
  fun_cases wordPiece s with
  | case1 rest =>
    rcases e : unicodeEscape? rest with _ | n
    · simp
    · rw [Option.map_some, Option.getD_some, Nat.add_comm, List.take_succ_cons, List.take_succ_cons,
        List.forall_mem_cons, List.forall_mem_cons]
      exact ⟨rfl, rfl, isChar_unicodeEscape e⟩
  | case2 c rest =>
    intro x hx
    rw [List.take_succ_cons, List.take_zero, List.mem_singleton] at hx
    rw [hx]
    rfl
  | case3 => simp
  | case4 => simp

/-- A word holds characters only. The induction is on the text; the symbols that still belong to the piece
before are characters, since pieces are. -/
theorem isChar_wordFrom (skip : Nat) (s : List Symbol) (h : ∀ x ∈ s.take skip, x.IsChar) :
    ∀ x ∈ s.take (wordFrom skip s), x.IsChar := by
  fun_induction wordFrom skip s with
  | case1 => simp
  | case2 skip y rest ih =>
    rw [List.take_succ_cons, List.forall_mem_cons] at h
    rw [Nat.add_comm, List.take_succ_cons, List.forall_mem_cons]
    exact ⟨h.1, ih h.2⟩
  | case3 => simp
  | case4 y rest n piece ih =>
    have chars := isChar_wordPiece (y :: rest)
    rw [piece, List.take_succ_cons, List.forall_mem_cons] at chars
    rw [Nat.add_comm, List.take_succ_cons, List.forall_mem_cons]
    exact ⟨chars.1, ih chars.2⟩

theorem isChar_word (s : List Symbol) : ∀ x ∈ s.take (word s), x.IsChar := by
  fun_cases word s with
  | case1 => simp
  | case2 => exact isChar_wordFrom 0 _ (by simp)
  | case3 => simp

/-- The text is the number at the start of some text. -/
def IsNumber (text : List Symbol) : Prop := ∃ s n, number s = n + 1 ∧ text = s.take (n + 1)

/-- The text is the string at the start of some text. -/
def IsString (text : List Symbol) : Prop := ∃ s n, string? s = some n ∧ text = s.take n

end Lexical

/-! ## Tokens -/

namespace Token

/-- A token is written this way. -/
def Spelled (text : List Symbol) : Token → Prop
  | .word w => text = Symbol.ofString w
  | .number t => text = t ∧ Lexical.IsNumber t
  | .string t => text = t ∧ Lexical.IsString t
  | _ => True

theorem read_spelled (slot : Slot) (s : List Symbol) : (read slot s).1.Spelled (s.take (read slot s).2) := by
  unfold read
  split
  · trivial
  · split <;> trivial
  · split
    · next w found =>
      rw [Option.ite_none_left_eq_some, wordOperator?] at found
      have starts := List.find?_some found.2
      exact Lexical.take_eq_of_startsWith starts
    · split
      · next n length =>
        have chars := Lexical.isChar_word s
        rw [length] at chars
        exact (Symbol.ofString_textOf chars).symm
      · split
        · next n length => exact ⟨rfl, s, n, length, rfl⟩
        · split
          · next n length => exact ⟨rfl, s, n, length, rfl⟩
          · split <;> trivial

end Token

/-! ## The next token -/

/-- A token stands in a source, not before an offset, and is written as it says. -/
structure Lexeme.On (src : List Symbol) (lo : Nat) (l : Lexeme) : Prop where
  start : l.start.On src
  stop : l.stop.On src
  lower : lo ≤ l.start.offset
  ordered : l.start.offset ≤ l.stop.offset
  spelled : ∃ text, l.extent.Spells src text ∧ l.token.Spelled text

namespace Cursor

variable {src : List Symbol} {lo : Nat}

/-- A token between two places of a source, if nothing is said of its text. -/
theorem On.lexeme_silent {c d : Cursor} (hc : c.On src) (hd : d.On src) (lower : lo ≤ c.offset)
    (le : c.offset ≤ d.offset) {t : Token} (silent : ∀ text, t.Spelled text) : Lexeme.On src lo ⟨t, c, d⟩ :=
  ⟨hc, hd, lower, le, _, hc.spells hd le, silent _⟩

theorem On.lexemeIn {c : Cursor} (h : c.On src) (lower : lo ≤ c.offset) (fuel : List Symbol) :
    (c.lexemeIn fuel).On src lo := by
  induction fuel generalizing c with
  | nil => exact h.lexeme_silent h lower le_rfl fun _ => trivial
  | cons x fuel ih =>
    rw [Cursor.lexemeIn]
    split
    · exact h.lexeme_silent h lower le_rfl fun _ => trivial
    · split
      · next n _ =>
        exact (h.advance n).lexeme_silent ((h.advance n).advance 1) (lower.trans (c.le_offset_advance n))
          (le_offset_advance _ 1) fun _ => trivial
      · dsimp only
        split
        · next n _ => exact ih (h.advance n) (lower.trans (c.le_offset_advance n))
        · generalize hs : c.advance (Lexical.blanks c.rest) = start
          have on : start.On src := hs ▸ h.advance _
          have spelled := Token.read_spelled c.slot start.rest
          generalize Token.read c.slot start.rest = read at spelled
          refine ⟨on, on.advance read.2, ?_, le_offset_advance _ _, _, on.spells (on.advance read.2)
            (le_offset_advance _ _), ?_⟩
          · rw [← hs]
            exact lower.trans (c.le_offset_advance _)
          · have taken : start.rest.take (start.rest.length - (start.advance read.2).rest.length) =
                start.rest.take read.2 := by
              rw [rest_advance, List.length_drop, List.take_eq_take_iff]
              omega
            rw [taken]
            exact spelled

/-- The next token of a cursor in a source. -/
theorem On.lexeme {c : Cursor} (h : c.On src) : c.lexeme.On src c.offset :=
  h.lexemeIn le_rfl _

end Cursor

end IndexedLoop
