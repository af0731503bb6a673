import IndexedLoop.Proofs.Operands.Scan
import IndexedLoop.Proofs.RoundTrip.Lead

/-!
# Passages

A `Passage` is a stretch of a text in which each bracket is closed that is opened there. Its looseness bounds how
loosely the tokens outside of these brackets bind. Passages follow one another (`Passage.trans`), and any passage
between brackets makes one that is as tight as the brackets are (`Passage.parens`, `Passage.brackets`,
`Passage.braces`). The rest of the module gives the passage of every token that printed texts consist of.
-/

namespace IndexedLoop.Scan

open Lexical

/-- All tokens stand inside at least `d` brackets, and those inside of no more bind at most so loosely. -/
def Guards (d w : Nat) (items : List Item) : Prop :=
  ∀ i ∈ items, d ≤ i.depth ∧ (i.depth = d → i.looseness ≤ w)

/-- From one phase to another, inside of brackets that stay open, by tokens that bind at most so loosely. -/
def Passage (w : Nat) (bs : List Bracket) (φ : Phase) (s : List Symbol) (ψ : Phase) (rest : List Symbol) : Prop :=
  ∃ items, Guards bs.length w items ∧ Reads ⟨φ, bs⟩ s items ⟨ψ, bs⟩ rest

variable {w v d : Nat} {b : Bracket} {bs : List Bracket} {φ χ ψ inside : Phase} {s t rest : List Symbol}
  {items more : List Item} {st behind : State}

/-! ## Looseness -/

namespace Item

variable {i : Item} {w : Nat}

theorem looseness_le_four (i : Item) : i.looseness ≤ 4 := by
  unfold looseness
  split_ifs <;> omega

theorem looseness_le_three_iff : i.looseness ≤ 3 ↔ i.isComma = false := by
  grind [looseness]

theorem looseness_le_two_iff : i.looseness ≤ 2 ↔
    i.isComma = false ∧ i.isAssign = false ∧ i.isAsk = false ∧ i.isBetween = false := by
  grind [looseness]

theorem looseness_le_one_iff : i.looseness ≤ 1 ↔
    (i.isComma = false ∧ i.isAssign = false ∧ i.isAsk = false ∧ i.isBetween = false) ∧
      i.isSign = false ∧ i.isUpdate = false ∧ i.isNumber = false := by
  grind [looseness]

theorem isParen_of_looseness (h : i.looseness ≤ 0) : i.isParen = false := by
  grind [looseness]

/-- A word is an operator between operands only as `in` and as `instanceof`. -/
theorem isBetween_word {name : String} {φ : Phase} {d : Nat} (h : IsName name.toList)
    (operand : φ ≠ .operator ∨ name ∉ ["in", "instanceof"]) :
    (⟨.token (.word name), φ, d⟩ : Item).isBetween = false := by
  rcases operand with phase | other
  · simp [isBetween, phase]
  · have signs : ∀ op ∈ BinaryOp.all, op.token ∈ ["in", "instanceof"] ∨
        op.token.toList.head?.any (fun c => !isWordChar c && c != '\\') = true := by decide +kernel
    have none : Grammar.binaryOp? (.word name) = none := h.find?_eq_none other signs
    simp [isBetween, token?, none]

/-- A word is an operator in front of its operand only as `typeof`, `void` and `delete`. -/
theorem isSign_word {name : String} {φ : Phase} {d : Nat} (h : IsName name.toList)
    (operand : φ.starts = false ∨ name ∉ ["typeof", "void", "delete"]) :
    (⟨.token (.word name), φ, d⟩ : Item).isSign = false := by
  rcases operand with phase | other
  · simp [isSign, phase]
  · have signs : ∀ op ∈ UnaryOp.all, op.token ∈ ["typeof", "void", "delete"] ∨
        op.token.toList.head?.any (fun c => !isWordChar c && c != '\\') = true := by decide
    have none : Grammar.unaryOp? (.word name) = none := h.find?_eq_none other signs
    simp [isSign, token?, none]

/-- A word binds nothing where it can be no operator, or if it is none. -/
theorem looseness_word {name : String} {φ : Phase} {d : Nat} (h : IsName name.toList)
    (operand : φ.starts = false ∧ φ ≠ .operator ∨ name ∉ ["in", "instanceof"] ++ ["typeof", "void", "delete"]) :
    (⟨.token (.word name), φ, d⟩ : Item).looseness ≤ w := by
  rw [List.mem_append, not_or] at operand
  have between : isBetween ⟨.token (.word name), φ, d⟩ = false := isBetween_word h (operand.imp And.right And.left)
  have sign : isSign ⟨.token (.word name), φ, d⟩ = false := isSign_word h (operand.imp And.left And.right)
  simp [looseness, between, sign, isComma, isAssign, isAsk, isUpdate, isNumber, isParen, token?, Grammar.assignOp?,
    Grammar.updateOp?]

end Item

theorem Guards.nil : Guards d w [] := by
  simp [Guards]

theorem Guards.append (h : Guards d w items) (h' : Guards d w more) : Guards d w (items ++ more) := by
  intro i mem
  rcases List.mem_append.mp mem with mem | mem
  · exact h i mem
  · exact h' i mem

theorem Guards.mono (h : Guards d w items) (le : w ≤ v) : Guards d v items :=
  fun i mem => ⟨(h i mem).1, fun e => ((h i mem).2 e).trans le⟩

/-- What stands inside of one more bracket is guarded, however loosely it binds. -/
theorem Guards.enclosed (h : Guards (d + 1) v items) : Guards d w items := by
  intro i mem
  have deep := (h i mem).1
  exact ⟨by omega, fun e => by omega⟩

theorem Guards.single {i : Item} (depth : i.depth = d) (light : i.looseness ≤ w) : Guards d w [i] := by
  intro j mem
  obtain rfl : j = i := by simpa using mem
  exact ⟨depth.ge, fun _ => light⟩

/-! ## Passages -/

namespace Passage

theorem refl : Passage w bs φ s φ s := ⟨[], .nil, .refl⟩

theorem trans (h : Passage w bs φ s χ t) (h' : Passage w bs χ t ψ rest) : Passage w bs φ s ψ rest := by
  obtain ⟨items, guards, reads⟩ := h
  obtain ⟨more, guards', reads'⟩ := h'
  exact ⟨items ++ more, guards.append guards', reads.trans reads'⟩

theorem mono (h : Passage w bs φ s ψ rest) (le : w ≤ v) : Passage v bs φ s ψ rest := by
  obtain ⟨items, guards, reads⟩ := h
  exact ⟨items, guards.mono le, reads⟩

theorem of_item {i : Item} (reads : Reads ⟨φ, bs⟩ s [i] ⟨ψ, bs⟩ rest) (depth : i.depth = bs.length)
    (light : i.looseness ≤ w) : Passage w bs φ s ψ rest :=
  ⟨[i], .single depth light, reads⟩

theorem blank {c : Char} (blank : isBlank c = true) : Passage w bs φ (.char c :: rest) φ rest :=
  ⟨[], .nil, reads_blank blank⟩

theorem space : Passage w bs φ (.char ' ' :: rest) φ rest := blank (by decide)

theorem newline : Passage w bs φ (.char '\n' :: rest) φ rest := blank (by decide)

end Passage

/-! ## Tokens -/

/-- A token is read where no comment starts, no question is asked, and a slash only where it divides. -/
theorem reads_token {token : Token} {depth : Nat}
    (first : ∃ c more, s = .char c :: more ∧ isBlank c = false ∧ (st.phase.starts = true → c ≠ '/'))
    (comment : comment? (s ++ rest) = none) (asks : asksAt (s ++ rest) = false)
    (read : Token.read .plain (s ++ rest) = (token, s.length))
    (next : st.next (.token token) = some (depth, behind)) :
    Reads st (s ++ rest) [⟨.token token, st.phase, depth⟩] behind rest := by
  obtain ⟨c, more, rfl, blank, slash⟩ := first
  have divides : (st.phase.starts && startsWith ['/'] (.char c :: (more ++ rest))) = false := by
    cases starts : st.phase.starts with
    | false => rfl
    | true => simp [startsWith, Ne.symm (slash starts)]
  refine reads_glyph blank comment ?_ next
  simp only [List.cons_append, List.length_cons] at asks read
  simp only [glyph?, divides, asks, read, Bool.false_eq_true, ↓reduceIte]

theorem reads_plain {token : Token} {depth : Nat}
    (first : ∃ c more, s = .char c :: more ∧ isBlank c = false ∧ c ∉ ['/', '?'])
    (read : Token.read .plain (s ++ rest) = (token, s.length))
    (next : st.next (.token token) = some (depth, behind)) :
    Reads st (s ++ rest) [⟨.token token, st.phase, depth⟩] behind rest := by
  obtain ⟨c, more, rfl, blank, plain⟩ := first
  simp only [List.mem_cons, List.not_mem_nil, or_false, not_or] at plain
  exact reads_token ⟨c, more, rfl, blank, fun _ => plain.1⟩ (comment?_char plain.1 _) (asksAt_char plain.2 _) read next

theorem opens?_eq_none (φ : Phase) {p : String} (h : p ∉ ["(", "[", "\x7b"]) : opens? φ p = none := by
  unfold opens?
  split <;> simp_all

theorem next_open {p : String} (h : opens? φ p = some (b, inside)) :
    State.next ⟨φ, bs⟩ (.token (.punct p)) = some (bs.length, ⟨inside, b :: bs⟩) := by
  simp only [State.next, h]

theorem next_close {p : String} (h : p ∈ [")", "]", "\x7d"]) (closes : b.close = p) :
    State.next ⟨φ, b :: bs⟩ (.token (.punct p)) = some (bs.length, ⟨b.behind, bs⟩) := by
  have closing : ∀ p ∈ [")", "]", "\x7d"], p ∉ ["(", "[", "\x7b"] := by decide
  have opens : opens? φ p = none := opens?_eq_none φ (closing p h)
  simp only [State.next, opens, h, closes, ↓reduceIte]

theorem next_punct {p : String} (h : p ∉ ["(", "[", "\x7b", ")", "]", "\x7d"]) :
    State.next ⟨φ, bs⟩ (.token (.punct p)) = some (bs.length, ⟨State.afterPunct ⟨φ, bs⟩ p, bs⟩) := by
  simp only [List.mem_cons, List.not_mem_nil, or_false, not_or] at h
  have opens : opens? φ p = none := opens?_eq_none φ (by simp [h])
  have closes : p ∉ [")", "]", "\x7d"] := by simp [h]
  simp only [State.next, opens, closes, ↓reduceIte]

theorem punctuators_visible : ∀ p ∈ punctuators, p.toList.head?.any (fun c => !isBlank c) = true := by
  decide +kernel

/-- A punctuation token is read where no longer one starts. -/
theorem reads_punct {p : String} {depth : Nat} (hp : p ∈ punctuators)
    (plain : p.toList.head?.all (fun c => c ∉ ['/', '?']) = true)
    (whole : punctuator? (Symbol.ofString p ++ rest) = some p)
    (point : p = "." → ∀ x ∈ rest.head?, x.satisfies Char.isDigit = false)
    (next : st.next (.token (.punct p)) = some (depth, behind)) :
    Reads st (Symbol.ofString p ++ rest) [⟨.token (.punct p), st.phase, depth⟩] behind rest := by
  refine reads_plain ?_ ?_ next
  · have visible := punctuators_visible p hp
    rcases e : p.toList with _ | ⟨c, cs⟩
    · simp [e] at visible
    · refine ⟨c, cs.map .char, by simp [Symbol.ofString, e], ?_⟩
      simpa [e] using And.intro visible plain
  · simpa [String.length_toList] using Token.read_punct .plain hp whole point

/-- A punctuation token that no other one starts with is read. -/
theorem reads_solitary {p : String} {depth : Nat} (solitary : isSolitary p = true)
    (plain : p.toList.head?.all (fun c => c ∉ ['/', '?', '.']) = true)
    (next : st.next (.token (.punct p)) = some (depth, behind)) :
    Reads st (Symbol.ofString p ++ rest) [⟨.token (.punct p), st.phase, depth⟩] behind rest := by
  refine reads_punct ?_ ?_ (punctuator?_solitary solitary rest) ?_ next
  · simp only [isSolitary, Bool.and_eq_true, List.contains_iff_mem] at solitary
    exact solitary.1
  · cases h : p.toList.head? with
    | none => rfl
    | some c =>
      simp only [h, Option.all_some, decide_eq_true_eq, List.mem_cons, List.not_mem_nil, or_false, not_or] at plain
      simp [plain]
  · rintro rfl
    exact absurd plain (by decide)

/-! ## Brackets -/

/-- Each bracket with what closes it. -/
def pairs : List (String × String) := [("(", ")"), ("[", "]"), ("\x7b", "\x7d")]

/-- A passage between brackets is read with the brackets, which stand outside of it. -/
theorem reads_enclosed {p q : String} (pair : (p, q) ∈ pairs) (opens : opens? φ p = some (⟨q, ψ⟩, inside))
    (h : Passage v (⟨q, ψ⟩ :: bs) inside s χ (Symbol.ofString q ++ rest)) :
    ∃ items, Guards (bs.length + 1) v items ∧
      Reads ⟨φ, bs⟩ (Symbol.ofString p ++ s)
        ([⟨.token (.punct p), φ, bs.length⟩] ++ items ++ [⟨.token (.punct q), χ, bs.length⟩]) ⟨ψ, bs⟩ rest := by
  have solitary : ∀ pair ∈ pairs, isSolitary pair.1 = true ∧ isSolitary pair.2 = true ∧
      pair.2 ∈ [")", "]", "\x7d"] ∧ pair.1.toList.head?.all (fun c => c ∉ ['/', '?', '.']) = true ∧
      pair.2.toList.head?.all (fun c => c ∉ ['/', '?', '.']) = true := by decide
  obtain ⟨alone, alone', closes, plain, plain'⟩ := solitary _ pair
  obtain ⟨items, guards, reads⟩ := h
  have first : Reads ⟨φ, bs⟩ (Symbol.ofString p ++ s) [⟨.token (.punct p), φ, bs.length⟩]
      ⟨inside, ⟨q, ψ⟩ :: bs⟩ s := reads_solitary alone plain (next_open opens)
  have last : Reads ⟨χ, ⟨q, ψ⟩ :: bs⟩ (Symbol.ofString q ++ rest) [⟨.token (.punct q), χ, bs.length⟩]
      ⟨ψ, bs⟩ rest := reads_solitary alone' plain' (next_close closes rfl)
  exact ⟨items, guards, (first.trans reads).trans last⟩

/-- The punctuation that binds nothing. -/
def quietSigns : List String := [")", "[", "]", "\x7b", "\x7d", ".", ":", ";"]

theorem looseness_quiet {p : String} (h : p ∈ quietSigns) : (⟨.token (.punct p), φ, d⟩ : Item).looseness ≤ w := by
  have silent : ∀ p ∈ quietSigns, p ∉ [",", "?", "("] ∧ Grammar.assignOp? (.punct p) = none ∧
      Grammar.updateOp? (.punct p) = none ∧ Grammar.unaryOp? (.punct p) = none ∧
      Grammar.binaryOp? (.punct p) = none := by decide +kernel
  obtain ⟨other, assign, update, unary, binary⟩ := silent p h
  simp only [List.mem_cons, List.not_mem_nil, or_false, not_or] at other
  simp [Item.looseness, Item.isComma, Item.isAssign, Item.isAsk, Item.isBetween, Item.isSign, Item.isUpdate,
    Item.isNumber, Item.isParen, Item.token?, other, assign, update, unary, binary]

theorem looseness_paren : (⟨.token (.punct "("), φ, d⟩ : Item).looseness = 1 := by
  cases φ <;> rfl

theorem looseness_update (op : UpdateOp) : (⟨.token (.punct op.token), φ, d⟩ : Item).looseness = 2 := by
  cases op <;> cases φ <;> rfl

namespace Passage

/-- Whatever stands between brackets, outside of them only the opening one binds. -/
theorem enclosed {p q : String} (pair : (p, q) ∈ pairs) (opens : opens? φ p = some (⟨q, ψ⟩, inside))
    (light : (⟨.token (.punct p), φ, bs.length⟩ : Item).looseness ≤ w)
    (h : Passage v (⟨q, ψ⟩ :: bs) inside s χ (Symbol.ofString q ++ rest)) :
    Passage w bs φ (Symbol.ofString p ++ s) ψ rest := by
  obtain ⟨items, guards, reads⟩ := reads_enclosed pair opens h
  have closing : ∀ pair ∈ pairs, pair.2 ∈ quietSigns := by decide
  have first : Guards bs.length w [⟨.token (.punct p), φ, bs.length⟩] := .single rfl light
  have last : Guards bs.length w [⟨.token (.punct q), χ, bs.length⟩] :=
    .single rfl (looseness_quiet (closing _ pair))
  exact ⟨_, (first.append guards.enclosed).append last, reads⟩

theorem parens (opens : opens? φ "(" = some (⟨")", ψ⟩, inside)) (light : 1 ≤ w)
    (h : Passage v (⟨")", ψ⟩ :: bs) inside s χ (.char ')' :: rest)) : Passage w bs φ (.char '(' :: s) ψ rest :=
  enclosed (p := "(") (by decide) opens (looseness_paren.trans_le light) h

theorem brackets (opens : opens? φ "[" = some (⟨"]", ψ⟩, inside))
    (h : Passage v (⟨"]", ψ⟩ :: bs) inside s χ (.char ']' :: rest)) : Passage w bs φ (.char '[' :: s) ψ rest :=
  enclosed (p := "[") (by decide) opens (looseness_quiet (by decide)) h

theorem braces (opens : opens? φ "\x7b" = some (⟨"\x7d", ψ⟩, inside))
    (h : Passage v (⟨"\x7d", ψ⟩ :: bs) inside s χ (.char '\x7d' :: rest)) :
    Passage w bs φ (.char '\x7b' :: s) ψ rest :=
  enclosed (p := "\x7b") (by decide) opens (looseness_quiet (by decide)) h

/-! ## Signs -/

/-- A sign that no other one starts with, and that is no bracket. -/
theorem sign {p : String} (solitary : isSolitary p = true)
    (plain : p.toList.head?.all (fun c => c ∉ ['/', '?', '.']) = true)
    (bracket : p ∉ ["(", "[", "\x7b", ")", "]", "\x7d"])
    (light : (⟨.token (.punct p), φ, bs.length⟩ : Item).looseness ≤ w) :
    Passage w bs φ (Symbol.ofString p ++ rest) (State.afterPunct ⟨φ, bs⟩ p) rest :=
  of_item (reads_solitary solitary plain (next_punct bracket)) rfl light

theorem comma : Passage 4 bs φ (.char ',' :: rest) .operand rest :=
  sign (p := ",") (by decide) (by decide) (by decide) (Item.looseness_le_four _)

theorem colon : Passage w bs φ (.char ':' :: rest) .operand rest :=
  sign (p := ":") (by decide) (by decide) (by decide) (looseness_quiet (by decide))

/-- In braces a semicolon ends a statement. -/
theorem semicolon : Passage w (⟨"\x7d", ψ⟩ :: bs) φ (.char ';' :: rest) .statement rest :=
  sign (p := ";") (by decide) (by decide) (by decide) (looseness_quiet (by decide))

/-- In parentheses a semicolon divides the head of a loop. -/
theorem divider : Passage w (⟨")", ψ⟩ :: bs) φ (.char ';' :: rest) .operand rest :=
  sign (p := ";") (by decide) (by decide) (by decide) (looseness_quiet (by decide))

theorem updateLeading (op : UpdateOp) (starts : φ.starts = true) :
    Passage 2 bs φ (Symbol.ofString op.token ++ rest) .operand rest := by
  have phase : State.afterPunct ⟨φ, bs⟩ op.token = .operand := by
    cases op <;> cases φ <;> first | rfl | cases starts
  rw [← phase]
  exact sign (by cases op <;> decide) (by cases op <;> decide) (by cases op <;> decide) (looseness_update op).le

theorem update (op : UpdateOp) : Passage 2 bs .operator (Symbol.ofString op.token ++ rest) .operator rest := by
  have phase : State.afterPunct ⟨.operator, bs⟩ op.token = .operator := by cases op <;> rfl
  nth_rewrite 2 [← phase]
  exact sign (by cases op <;> decide) (by cases op <;> decide) (by cases op <;> decide) (looseness_update op).le

/-- A sign of a number. -/
theorem minus {c : Char} (starts : φ.starts = true) (other : c ∉ ['-', '=']) :
    Passage 2 bs φ (.char '-' :: .char c :: rest) .operand (.char c :: rest) := by
  simp only [List.mem_cons, List.not_mem_nil, or_false, not_or] at other
  have whole : punctuator? (Symbol.ofString "-" ++ .char c :: rest) = some "-" := by
    refine punctuator?_of_not_longer (by decide) fun q mem longer ne => ?_
    have longer : q ∈ ["--", "-="] := by
      have : ∀ q ∈ punctuators, "-".toList <+: q.toList → q ≠ "-" → q ∈ ["--", "-="] := by decide
      exact this q mem longer ne
    simp only [List.mem_cons, List.not_mem_nil, or_false] at longer
    rcases longer with rfl | rfl
    · simp [Symbol.ofString, startsWith, Ne.symm other.1]
    · simp [Symbol.ofString, startsWith, Ne.symm other.2]
  refine of_item (reads_punct (p := "-") (by decide) (by decide) whole (fun e => absurd e (by decide))
    (next_punct (by decide))) rfl ?_
  cases φ <;> first | exact Nat.le_of_eq rfl | cases starts

/-- The question mark of a conditional, in front of its first branch. -/
theorem ask (lead : ∃ c more, s = .char c :: more ∧ c ∉ ['.', '?']) :
    Passage 3 bs .operator (.char '?' :: (s ++ rest)) .operand (s ++ rest) := by
  obtain ⟨c, more, rfl, other⟩ := lead
  have read : glyph? .operator (.char '?' :: .char c :: (more ++ rest)) = some (.token (.punct "?"), 1) := by
    simp [glyph?, Phase.starts, asksAt_mark other]
  exact of_item (reads_glyph (s := []) (by decide) (comment?_char (by decide) _) read (next_punct (by decide))) rfl
    (Item.looseness_le_three_iff.mpr rfl)

/-! ## Operators -/

/-- A mark with a space on both sides stands between two operands. -/
theorem operator {m : Mark} (gap : m.gap ≠ []) :
    Passage 3 bs .operator (.char ' ' :: (Symbol.ofString m.sign ++ .char ' ' :: rest)) .operand rest := by
  have ask : m ≠ .ask := by
    rintro rfl
    exact gap rfl
  have brace : m ≠ .close .brace := by
    rintro rfl
    exact gap rfl
  have fits : m.Fits (.char ' ' :: rest) := by
    cases m with
    | binary op => exact ⟨rest, rfl⟩
    | assign op => exact ⟨rest, rfl⟩
    | close c => exact trivial
    | _ => exact absurd rfl gap
  have calm := Mark.calm fits ask brace
  have visible : ∀ m ∈ Mark.all, m.sign.toList.head?.any (fun c => !isBlank c) = true := by decide +kernel
  have first : ∃ c more, Symbol.ofString m.sign = .char c :: more ∧ isBlank c = false ∧
      (Phase.operator.starts = true → c ≠ '/') := by
    have visible := visible m m.mem_all
    rcases text : m.sign.toList with _ | ⟨c, cs⟩
    · simp [text] at visible
    · exact ⟨c, cs.map .char, by simp [Symbol.ofString, text], by simpa [text] using visible, fun e => by cases e⟩
  have read : Token.read .plain (Symbol.ofString m.sign ++ .char ' ' :: rest) =
      (m.token, (Symbol.ofString m.sign).length) := by
    rw [Mark.read fits .plain ask, Symbol.length_ofString, String.length_toList]
  have next : State.next ⟨.operator, bs⟩ (.token m.token) = some (bs.length, ⟨.operand, bs⟩) := by
    cases m with
    | binary op => cases op <;> rfl
    | assign op => cases op <;> rfl
    | close c => cases c <;> first | rfl | exact absurd rfl gap
    | _ => exact absurd rfl gap
  have tight : ∀ m ∈ Mark.all, m.gap ≠ [] → m.token ≠ .punct "," := by decide +kernel
  refine space.trans (.trans (of_item (reads_token first calm.comment_eq calm.asks read next) rfl ?_) space)
  exact Item.looseness_le_three_iff.mpr (by simpa [Item.isComma, Item.token?] using tight m m.mem_all gap)

theorem binary (op : BinaryOp) :
    Passage 3 bs .operator (.char ' ' :: (Symbol.ofString op.token ++ .char ' ' :: rest)) .operand rest :=
  operator (m := .binary op) (by simp [Mark.gap])

theorem assign (op : AssignOp) :
    Passage 3 bs .operator (.char ' ' :: (Symbol.ofString op.token ++ .char ' ' :: rest)) .operand rest :=
  operator (m := .assign op) (by simp [Mark.gap])

/-! ## Words and literals -/

theorem breaks_of_mem {c : Char} (h : c ∈ breakChars) : Breaks (.char c :: rest) := by
  rintro x mem
  cases mem
  exact ⟨c, h, rfl⟩

theorem breaks_space : Breaks (.char ' ' :: rest) := breaks_of_mem (by decide)

/-- A word, as an operand or in front of one. -/
theorem word {name : String} (h : IsName name.toList) (stop : Breaks rest)
    (light : (⟨.token (.word name), φ, bs.length⟩ : Item).looseness ≤ w) :
    Passage w bs φ (Symbol.ofString name ++ rest) (φ.afterWord name) rest := by
  have read : Token.read .plain (Symbol.ofString name ++ rest) = (.word name, (Symbol.ofString name).length) := by
    rw [Symbol.ofString, Token.read_name rfl h stop.wordPiece_eq, String.ofList_toList, List.length_map]
  obtain ⟨c, more, text, blank, sign⟩ := h.opens
  have plain : c ∉ ['/', '?'] := by
    have : ∀ c ∈ ['/', '?'], c ∈ signs := by decide
    exact fun mem => sign (this c mem)
  exact of_item (reads_plain ⟨c, more.map .char, by simp [Symbol.ofString, text], blank, plain⟩ read rfl) rfl light

/-- A keyword binds nothing. -/
theorem keyword {name : String} (h : name ∈ keywords) (stop : Breaks rest) :
    Passage w bs φ (Symbol.ofString name ++ rest) (φ.afterWord name) rest := by
  have other : ∀ name ∈ keywords, name ∉ ["in", "instanceof"] ++ ["typeof", "void", "delete"] := by decide
  have isName := (keywords_isName h).1
  exact word isName stop (Item.looseness_word isName (.inr (other name h)))

/-- A name is an operand. -/
theorem name {name : String} (h : IsName name.toList) (other : name ∉ steeringWords) (stop : Breaks rest)
    (operand : φ ∈ [.statement, .operand, .operator]) :
    Passage w bs φ (Symbol.ofString name ++ rest) .operator rest := by
  have operators : ∀ name ∈ ["in", "instanceof"] ++ ["typeof", "void", "delete"], name ∈ steeringWords := by decide
  have phase : φ.afterWord name = .operator := by
    simp only [steeringWords, List.mem_append, List.mem_cons, List.not_mem_nil, or_false, not_or] at other
    simp only [List.mem_cons, List.not_mem_nil, or_false] at operand
    rcases operand with rfl | rfl | rfl <;> simp [Phase.afterWord, other]
  rw [← phase]
  exact word h stop (Item.looseness_word h (.inr fun mem => other (operators name mem)))

/-- A point and the name of a property, which may be any word. -/
theorem property {name : String} (h : IsName name.toList) (stop : Breaks rest) :
    Passage w bs .operator (.char '.' :: (Symbol.ofString name ++ rest)) .operator rest := by
  have point : Passage w bs .operator (.char '.' :: (Symbol.ofString name ++ rest)) .member
      (Symbol.ofString name ++ rest) := by
    obtain ⟨c, more, text, start, digit⟩ := h.first
    have other : c ≠ '.' := by
      rintro rfl
      exact absurd start (by decide)
    have symbols : Symbol.ofString name ++ rest = .char c :: (more.map .char ++ rest) := by
      simp [Symbol.ofString, text]
    rw [symbols]
    exact of_item (reads_plain (s := [.char '.']) ⟨'.', [], rfl, by decide, by decide⟩
      (Mark.read_point digit other _) (next_punct (by decide))) rfl
      (looseness_quiet (by decide))
  exact point.trans (word h stop (Item.looseness_word h (.inl (by decide))))

/-- The name of a function, which may be any word. -/
theorem functionName {name : String} {declares : Bool} (h : IsName name.toList) (stop : Breaks rest) :
    Passage w bs (.heading declares) (Symbol.ofString name ++ rest) (.heading declares) rest :=
  word h stop (Item.looseness_word h (.inl ⟨rfl, by simp⟩))

/-- An operator in front of its operand. -/
theorem unary (op : UnaryOp) (starts : φ.starts = true) :
    Passage 2 bs φ (Symbol.ofString op.token ++ .char ' ' :: rest) .operand rest := by
  refine .trans ?_ space
  have sign (p : String) (mem : p ∈ ["!", "~", "-", "+"]) :
      Passage 2 bs φ (Symbol.ofString p ++ .char ' ' :: rest) .operand (.char ' ' :: rest) := by
    have facts : ∀ p ∈ ["!", "~", "-", "+"], p ∈ punctuators ∧ p ≠ "." ∧
        p.toList.head?.all (fun c => c ∉ ['/', '?']) = true := by decide
    obtain ⟨hp, other, plain⟩ := facts p mem
    have whole := punctuator?_blank hp rest
    simp only [List.mem_cons, List.not_mem_nil, or_false] at mem
    refine of_item (reads_punct hp plain whole (fun e => absurd e other) ?_) rfl ?_
    · rcases mem with rfl | rfl | rfl | rfl <;> exact next_punct (by decide)
    · rcases mem with rfl | rfl | rfl | rfl <;> cases φ <;> first | exact Nat.le_of_eq rfl | cases starts
  have front (name : String) (mem : name ∈ ["typeof", "void", "delete"]) :
      Passage 2 bs φ (Symbol.ofString name ++ .char ' ' :: rest) .operand (.char ' ' :: rest) := by
    have chars : ∀ name ∈ ["typeof", "void", "delete"],
        (name.toList.all isWordChar && name.toList.head?.any fun c => !c.isDigit) = true := by decide
    have isName : IsName name.toList := .of_chars (chars name mem)
    simp only [List.mem_cons, List.not_mem_nil, or_false] at mem
    have phase : φ.afterWord name = .operand := by
      rcases mem with rfl | rfl | rfl <;> cases φ <;> first | rfl | cases starts
    rw [← phase]
    refine word isName breaks_space ?_
    rcases mem with rfl | rfl | rfl <;> cases φ <;> first | exact Nat.le_of_eq rfl | cases starts
  cases op with
  | not => exact sign "!" (by decide)
  | bitNot => exact sign "~" (by decide)
  | neg => exact sign "-" (by decide)
  | plus => exact sign "+" (by decide)
  | typeOf => exact front "typeof" (by decide)
  | void => exact front "void" (by decide)
  | delete => exact front "delete" (by decide)

theorem number (p : NumberLiteral.Parts) (stop : Breaks rest) (point : rest.head? ≠ some (.char '.')) :
    Passage 2 bs φ (p.text.map .char ++ rest) .operator rest := by
  have read := Token.read_number .plain p stop point
  rw [← List.length_map (f := Symbol.char)] at read
  obtain ⟨c, more, text, digit, -⟩ := p.exists_text_eq
  have plain : isBlank c = false ∧ c ∉ ['/', '?'] := by
    have : ∀ c ∈ digitChars, isBlank c = false ∧ c ∉ ['/', '?'] := by decide
    exact this c (mem_digitChars digit)
  exact of_item (reads_plain ⟨c, more.map .char, by rw [text]; rfl, plain⟩ read rfl) rfl
    (Item.looseness_le_two_iff.mpr ⟨rfl, rfl, rfl, rfl⟩)

theorem string {body : List Char} (h : StringBody body) :
    Passage w bs φ (('"' :: (body ++ ['"'])).map .char ++ rest) .operator rest := by
  have read := Token.read_string .plain h rest
  have length : body.length + 2 = (('"' :: (body ++ ['"'])).map Symbol.char).length := by simp
  rw [length] at read
  exact of_item (reads_plain ⟨'"', (body ++ ['"']).map .char, rfl, by decide, by decide⟩ read rfl) rfl (Nat.zero_le w)

/-- A regular expression starts where an operand may start. -/
theorem regExp {cs : List Char} (h : IsRegex cs) (starts : φ.starts = true) (stop : Breaks rest) :
    Passage w bs φ (cs.map .char ++ rest) .operator rest := by
  have comment : comment? (cs.map .char ++ rest) = none := by
    obtain ⟨c, more, text, other⟩ := h.slash rest
    rw [text]
    exact (Calm.of_slash other more).comment_eq
  obtain ⟨c, body, flags, rfl, regex, -, letters⟩ := h
  have size := regex?_body regex (by simp) (comment?_flags letters stop)
  have behind : ((.char '/' :: (c :: body).map Symbol.char ++ [Symbol.char '/']) ++
      (flags.map Symbol.char ++ rest)).drop ((c :: body).length + 2) = flags.map .char ++ rest := by
    have length : (c :: body).length + 2 = (.char '/' :: (c :: body).map Symbol.char ++ [Symbol.char '/']).length := by
      simp
    rw [length, List.drop_left]
  have total : (c :: body).length + 2 + flags.length = ((c :: (body ++ '/' :: flags)).map Symbol.char).length + 1 := by
    simp only [List.length_map, List.length_cons, List.length_append]
    omega
  have read : glyph? φ (.char '/' :: ((c :: (body ++ '/' :: flags)).map .char ++ rest)) =
      some (.regExp, ((c :: (body ++ '/' :: flags)).map Symbol.char).length + 1) := by
    rw [← total]
    simp only [List.map_cons, List.map_append, List.cons_append, List.nil_append, List.append_assoc]
      at size behind ⊢
    simp only [glyph?, starts, startsWith, BEq.rfl, Bool.and_true, ↓reduceIte, size, Option.map_some, behind,
      regexFlags_append letters stop]
  exact of_item (reads_glyph (by decide) comment read rfl) rfl (Nat.zero_le w)

end Passage

end IndexedLoop.Scan
