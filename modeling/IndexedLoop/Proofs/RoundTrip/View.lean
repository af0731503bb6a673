import IndexedLoop.Proofs.RoundTrip.Tokens

/-!
# What a cursor sees

`Token.read` finds a name, a number, a string and a punctuation token that starts a text (`read_name`,
`read_number`, `read_string`, `read_punct`). What a cursor sees next is a `View`: a token and the text
from its start and from its end on. It depends on the slot and on the text that follows only
(`Cursor.lexeme_view`), and where no semicolon is inserted, no question is asked and no comment starts,
it is the token behind the blanks (`View.of_eq`).
-/

namespace IndexedLoop

open Lexical

/-! ## Tokens -/

namespace Token

theorem textOf_map (cs : List Char) : textOf (cs.map .char) = String.ofList cs := by
  simp [textOf, List.filterMap_map, Function.comp_def, Symbol.char?]

theorem take_map_append (cs : List Char) (rest : List Symbol) :
    (cs.map Symbol.char ++ rest).take cs.length = cs.map .char := by
  rw [← List.length_map (f := Symbol.char), List.take_left]

theorem wordOperator?_char {c : Char} (h : c ≠ 'i') (rest : List Symbol) :
    wordOperator? (.char c :: rest) = none := by
  simp [wordOperator?, startsWith, Ne.symm h]

/-- A word is read where words may stand. -/
theorem read_word {slot : Slot} {c : Char} {rest : List Symbol} {n : Nat} (words : slot.words = true)
    (sign : c ≠ '#') (h : Lexical.word (.char c :: rest) = n + 1) :
    read slot (.char c :: rest) = (.word (textOf ((.char c :: rest).take (n + 1))), n + 1) := by
  unfold read
  split
  · rename_i e
    cases e
  · rename_i e
    cases e
    exact absurd rfl sign
  · simp only [words, ↓reduceIte, h]

/-- What is no word is a number, a string or a punctuation token. -/
theorem read_other {slot : Slot} {c : Char} {rest : List Symbol} (sign : c ∉ ['#', 'i'])
    (h : Lexical.word (.char c :: rest) = 0) :
    read slot (.char c :: rest) =
      match Lexical.number (.char c :: rest) with
      | n + 1 => (.number ((.char c :: rest).take (n + 1)), n + 1)
      | 0 =>
        match Lexical.string? (.char c :: rest) with
        | some n => (.string ((.char c :: rest).take n), n)
        | none =>
          match Lexical.punctuator? (.char c :: rest) with
          | some p => (.punct p, p.length)
          | none => (.unreadable, 0) := by
  simp only [List.mem_cons, List.not_mem_nil, or_false, not_or] at sign
  unfold read
  split
  · rename_i e
    cases e
  · rename_i e
    cases e
    exact absurd rfl sign.1
  · rw [wordOperator?_char sign.2, ite_self]
    simp only [h] <;> rfl

theorem read_name {slot : Slot} {cs : List Char} {rest : List Symbol} (words : slot.words = true)
    (h : IsName cs) (stop : wordPiece rest = 0) :
    read slot (cs.map .char ++ rest) = (.word (String.ofList cs), cs.length) := by
  have length := word_name h stop
  obtain ⟨c, hc, digit⟩ := h.start
  cases cs with
  | nil => cases hc
  | cons d cs =>
    have sign : d ≠ '#' := by
      rintro rfl
      cases h.text with
      | char word => exact absurd word (by decide)
    have take := take_map_append (d :: cs) rest
    simp only [List.map_cons, List.cons_append, List.length_cons] at length take ⊢
    rw [read_word words sign length, take, ← List.map_cons (f := Symbol.char), textOf_map]

theorem word_eq_zero {c : Char} (h : isWordChar c = false) (backslash : c ≠ '\\') (rest : List Symbol) :
    Lexical.word (.char c :: rest) = 0 := by
  have piece : wordPiece (.char c :: rest) = 0 := by
    unfold wordPiece
    split
    · rename_i e
      cases e
      exact absurd rfl backslash
    · rename_i e
      cases e
      simp [h]
    · rfl
  rw [Lexical.word]
  split
  · rfl
  · simp only [wordFrom, piece]

theorem read_number (slot : Slot) (p : NumberLiteral.Parts) {rest : List Symbol} (h : Breaks rest)
    (point : rest.head? ≠ some (.char '.')) :
    read slot (p.text.map .char ++ rest) = (.number (p.text.map .char), p.text.length) := by
  have length := number_parts p h point
  have take := take_map_append p.text rest
  obtain ⟨d, more, text, digit, -⟩ := p.exists_text_eq
  rw [text] at length take ⊢
  simp only [List.map_cons, List.cons_append, List.length_cons] at length take ⊢
  have sign : d ∉ ['#', 'i'] := by
    simp only [List.mem_cons, List.not_mem_nil, or_false, not_or]
    constructor <;> (rintro rfl; exact absurd digit (by decide))
  have word : Lexical.word (.char d :: (more.map .char ++ rest)) = 0 := by
    simp [Lexical.word, digit]
  rw [read_other sign word, length]
  simp only [take]

theorem number_eq_zero {c : Char} (h : c.isDigit = false) (point : c ≠ '.') (rest : List Symbol) :
    Lexical.number (.char c :: rest) = 0 := by
  unfold Lexical.number
  split
  · rename_i e
    cases e
    exact absurd rfl point
  · rename_i e
    cases e
    exact absurd h (by decide)
  · rename_i e
    cases e
    simp [h]
  · rfl

theorem read_string (slot : Slot) {body : List Char} (h : StringBody body) (rest : List Symbol) :
    read slot (('"' :: (body ++ ['"'])).map .char ++ rest) =
      (.string (('"' :: (body ++ ['"'])).map .char), body.length + 2) := by
  have length := string?_body h rest
  have take := take_map_append ('"' :: (body ++ ['"'])) rest
  simp only [List.map_cons, List.map_append, List.map_nil, List.cons_append, List.append_assoc,
    List.nil_append, List.length_cons, List.length_append, List.length_nil] at take ⊢
  rw [read_other (by decide) (word_eq_zero (by decide) (by decide) _),
    number_eq_zero (by decide) (by decide), length]
  simp only [take]

/-- What the first character of a punctuation token is not. -/
theorem punctuators_open : ∀ p ∈ punctuators, p.toList.head?.any (fun c =>
    !isWordChar c && !c.isDigit && decide (c ∉ ['\\', '#', 'i', '"', '\''])) = true := by
  decide +kernel

theorem punctuators_point : ∀ p ∈ punctuators, p.toList.head? = some '.' → p = "." ∨ p = "..." := by
  decide +kernel

theorem string?_eq_none {c : Char} (h : c ∉ ['"', '\'']) (rest : List Symbol) :
    string? (.char c :: rest) = none := by
  unfold string?
  split
  · rename_i e
    cases e
    exact absurd h (by decide)
  · rename_i e
    cases e
    exact absurd h (by decide)
  · rfl

/-- A punctuation token that starts a text is read, unless it is the point of a number. -/
theorem read_punct (slot : Slot) {p : String} {rest : List Symbol} (hp : p ∈ punctuators)
    (h : punctuator? (Symbol.ofString p ++ rest) = some p)
    (point : p = "." → ∀ x ∈ rest.head?, x.satisfies Char.isDigit = false) :
    read slot (Symbol.ofString p ++ rest) = (.punct p, p.length) := by
  have first := punctuators_open p hp
  rcases hl : p.toList with _ | ⟨c, cs⟩
  · simp [hl] at first
  · simp only [hl, List.head?_cons, Option.any_some, Bool.and_eq_true, Bool.not_eq_true',
      decide_eq_true_eq, List.mem_cons, List.not_mem_nil, or_false, not_or] at first
    obtain ⟨⟨word, digit⟩, backslash, sign, i, double, single⟩ := first
    have text : Symbol.ofString p ++ rest = .char c :: (cs.map .char ++ rest) := by
      simp [Symbol.ofString, hl]
    rw [text] at h ⊢
    have number : Lexical.number (.char c :: (cs.map .char ++ rest)) = 0 := by
      by_cases dot : c = '.'
      · subst dot
        rcases punctuators_point p hp (by simp [hl]) with rfl | rfl
        · obtain rfl : cs = [] := (List.cons.inj hl).2.symm
          cases rest with
          | nil => rfl
          | cons x rest =>
            have := point rfl x rfl
            cases x with
            | stray b => rfl
            | char d =>
              simp only [Symbol.satisfies] at this
              simp [Lexical.number, digitRun, this]
        · obtain rfl : cs = ['.', '.'] := (List.cons.inj hl).2.symm
          rfl
      · exact number_eq_zero digit dot _
    rw [read_other (by simp [sign, i]) (word_eq_zero word backslash _), number,
      string?_eq_none (by simp [double, single]), h]

end Token

/-! ## What a cursor sees -/

namespace Cursor

@[simp]
theorem rest_advance (c : Cursor) (n : Nat) : (c.advance n).rest = c.rest.drop n := by
  induction n generalizing c with
  | zero => rfl
  | succ n ih =>
    rw [advance]
    split
    · rename_i e
      simp [e]
    · rename_i x rest e
      rw [ih, e, List.drop_succ_cons]

@[simp]
theorem slot_advance (c : Cursor) (n : Nat) : (c.advance n).slot = c.slot := by
  induction n generalizing c with
  | zero => rfl
  | succ n ih =>
    rw [advance]
    split
    · rfl
    · exact ih _

@[simp]
theorem pending_advance (c : Cursor) (n : Nat) : (c.advance n).pending = c.pending := by
  induction n generalizing c with
  | zero => rfl
  | succ n ih =>
    rw [advance]
    split
    · rfl
    · exact ih _

@[simp]
theorem rest_facing (c : Cursor) (slot : Slot) : (c.facing slot).rest = c.rest := rfl

@[simp]
theorem slot_facing (c : Cursor) (slot : Slot) : (c.facing slot).slot = slot := rfl

@[simp]
theorem pending_facing (c : Cursor) (slot : Slot) : (c.facing slot).pending = c.pending := rfl

end Cursor

/-- What stands next: a token, and the text from its start and from its end on. -/
structure View where
  token : Token
  start : List Symbol
  stop : List Symbol

namespace Lexeme

/-- What a lexeme shows of the text. -/
def view (l : Lexeme) : View := ⟨l.token, l.start.rest, l.stop.rest⟩

end Lexeme

namespace Cursor

/-- What a cursor sees depends on its slot and on the text that follows. -/
theorem lexemeIn_view {c d : Cursor} (slot : c.slot = d.slot) (rest : c.rest = d.rest)
    (fuel : List Symbol) : (c.lexemeIn fuel).view = (d.lexemeIn fuel).view := by
  induction fuel generalizing c d with
  | nil => simp [lexemeIn, Lexeme.view, rest]
  | cons x fuel ih =>
    simp only [lexemeIn, slot, rest, rest_advance]
    by_cases inserts : (d.slot.ends && Semicolon.insertsAt d.slot.joins d.rest) = true
    · simp [inserts, Lexeme.view, rest]
    · rcases asks : (if d.slot.joins then Semicolon.beforeQuestionMark? d.slot.ends d.rest else none) with _ | n
      · rcases comment : (if d.slot.ends || d.slot.joins then none else markupComment? d.rest).or
          (blanksAndComment? d.rest) with _ | n
        · simp [inserts, Lexeme.view, rest]
        · simp only [inserts, Bool.false_eq_true, ↓reduceIte]
          exact ih (by simpa using slot) (by simp [rest])
      · simp [inserts, Lexeme.view, rest]

theorem lexemeIn_pending (fuel : List Symbol) (c : Cursor) :
    (c.lexemeIn fuel).start.pending = c.pending ∧ (c.lexemeIn fuel).stop.pending = c.pending := by
  induction fuel generalizing c with
  | nil => exact ⟨rfl, rfl⟩
  | cons x fuel ih =>
    simp only [lexemeIn]
    split
    · exact ⟨rfl, rfl⟩
    · split
      · simp
      · split
        · simpa using ih (c.advance _)
        · simp

end Cursor

/-- What a cursor at a slot sees of a text. -/
def View.of (slot : Slot) (s : List Symbol) : View :=
  (Cursor.mk .origin s slot [] 0 0).lexeme.view

namespace Cursor

/-- A cursor sees what stands next at its slot. -/
theorem lexeme_view (c : Cursor) : c.lexeme.view = View.of c.slot c.rest :=
  lexemeIn_view (c := c) (d := ⟨.origin, c.rest, c.slot, [], 0, 0⟩) rfl rfl (.char ' ' :: c.rest)

@[simp]
theorem pending_lexeme_stop (c : Cursor) : c.lexeme.stop.pending = c.pending :=
  (lexemeIn_pending _ c).2

@[simp]
theorem pending_lexeme_start (c : Cursor) : c.lexeme.start.pending = c.pending :=
  (lexemeIn_pending _ c).1

end Cursor

/-- A text in which no semicolon is inserted, no question is asked and no comment starts shows its first
token. -/
theorem View.of_eq (slot : Slot) {s : List Symbol}
    (inserts : slot.ends = true → Semicolon.insertsAt slot.joins s = false)
    (asks : slot.joins = true → Semicolon.beforeQuestionMark? slot.ends s = none)
    (markup : slot.ends = false → slot.joins = false → markupComment? s = none)
    (comment : blanksAndComment? s = none) : View.of slot s =
      ⟨(Token.read slot (s.drop (blanks s))).1, s.drop (blanks s),
        (s.drop (blanks s)).drop (Token.read slot (s.drop (blanks s))).2⟩ := by
  rcases slot with ⟨_ | _, _ | _, words⟩ <;>
    simp_all [View.of, Cursor.lexeme, Cursor.lexemeIn, Lexeme.view]

end IndexedLoop
