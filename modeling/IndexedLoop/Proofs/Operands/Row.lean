import IndexedLoop.Proofs.Operands.Passage

/-!
# Operands and rows

A text is an `Operand` if it can be read wherever an operand may start, and an operator may follow it. A `Row` is any
text that can be read between brackets: operands with commas between them, or nothing at all. In parentheses every row
is an operand as tight as the parentheses are (`Row.inParens`).
-/

namespace IndexedLoop.Scan

open Lexical

variable {w v : Nat} {bs : List Bracket} {φ ψ : Phase} {s t rest : List Symbol} {dotted : Bool}

/-! ## What stands in front and behind -/

/-- A statement with this text would be a block or a declaration of a function. -/
def Fenced (s : List Symbol) : Prop :=
  Symbol.ofString "function " <+: s ∨ Symbol.ofString "\x7b" <+: s

/-- An operand with this text may start here. -/
structure Starts (φ : Phase) (s : List Symbol) : Prop where
  operand : φ.starts = true
  open_ : φ = .statement → ¬ Fenced s

theorem Fenced.append (h : Fenced s) : Fenced (s ++ t) :=
  h.imp (·.trans (List.prefix_append s t)) (·.trans (List.prefix_append s t))

theorem Starts.of_append (h : Starts φ (s ++ t)) : Starts φ s :=
  ⟨h.operand, fun e fenced => h.open_ e fenced.append⟩

theorem starts_operand (s : List Symbol) : Starts .operand s :=
  ⟨rfl, fun e => by cases e⟩

/-- A fenced text starts where no statement does. -/
theorem Starts.eq_operand (h : Starts φ s) (fenced : Fenced s) : φ = .operand := by
  have operand := h.operand
  cases φ with
  | operand => rfl
  | statement => exact absurd fenced (h.open_ rfl)
  | _ => cases operand

theorem Starts.mem (h : Starts φ s) : φ ∈ [.statement, .operand, .operator] := by
  have operand := h.operand
  cases φ <;> first | decide | cases operand

theorem Starts.opens_paren (h : Starts φ s) : opens? φ "(" = some (⟨")", .operator⟩, .operand) := by
  have operand := h.operand
  cases φ <;> first | rfl | cases operand

theorem opens_bracket (φ : Phase) : opens? φ "[" = some (⟨"]", .operator⟩, .operand) := by
  cases φ <;> rfl

/-- This text may stand behind an operand. Only behind some operands it may start with a point. -/
structure Follows (dotted : Bool) (rest : List Symbol) : Prop where
  breaks : Breaks rest
  point : dotted = false → rest.head? ≠ some (.char '.')

theorem Follows.nil : Follows dotted [] := ⟨by simp [Breaks], by simp⟩

theorem Follows.of_mem {c : Char} (h : c ∈ breakChars) (point : c ≠ '.') : Follows dotted (.char c :: rest) :=
  ⟨Passage.breaks_of_mem h, by simpa using fun _ => point⟩

theorem Follows.of_point : Follows true (.char '.' :: rest) :=
  ⟨Passage.breaks_of_mem (by decide), fun e => by cases e⟩

/-! ## Operands -/

/-- The text is read wherever an operand may start. Outside of its brackets nothing binds more loosely than `w` says. -/
structure Operand (w : Nat) (dotted : Bool) (s : List Symbol) : Prop where
  lead : ∃ c t, s = .char c :: t ∧ c ∉ ['.', '?']
  passage : ∀ bs φ rest, Starts φ s → Follows dotted rest → Passage w bs φ (s ++ rest) .operator rest

theorem Operand.onward (h : Operand w dotted s) (follows : Follows dotted rest) :
    Passage w bs .operand (s ++ rest) .operator rest :=
  h.passage bs .operand rest (starts_operand s) follows

theorem Operand.mono (h : Operand w dotted s) (le : w ≤ v) {narrow : Bool} (point : narrow = true → dotted = true) :
    Operand v narrow s := by
  refine ⟨h.lead, fun bs φ rest starts follows => (h.passage bs φ rest starts ⟨follows.breaks, fun e => ?_⟩).mono le⟩
  refine follows.point ?_
  cases narrow with
  | false => rfl
  | true => rw [point rfl] at e; cases e

/-- What goes on behind an operand makes it a longer one. -/
theorem Operand.append (h : Operand w dotted s) {narrow : Bool} (behind : ∀ rest, Follows dotted (t ++ rest))
    (next : ∀ bs rest, Follows narrow rest → Passage w bs .operator (t ++ rest) .operator rest) :
    Operand w narrow (s ++ t) := by
  obtain ⟨c, more, lead, other⟩ := h.lead
  refine ⟨⟨c, more ++ t, by rw [lead]; rfl, other⟩, fun bs φ rest starts follows => ?_⟩
  rw [List.append_assoc]
  exact (h.passage bs φ _ starts.of_append (behind rest)).trans (next bs rest follows)

/-- The text is read wherever an operand may start, and something may be missing behind it. -/
def Row (s : List Symbol) : Prop :=
  ∀ bs φ rest, Starts φ s → Follows false rest → ∃ ψ, Passage 4 bs φ (s ++ rest) ψ rest

theorem Operand.row (h : Operand w dotted s) (le : w ≤ 4) : Row s := by
  have wide : Operand 4 false s := h.mono le fun e => by cases e
  exact fun bs φ rest starts follows => ⟨.operator, wide.passage bs φ rest starts follows⟩

theorem Row.nil : Row [] := fun _ φ _ _ _ => ⟨φ, .refl⟩

theorem Row.comma (h : Row s) : Row (s ++ [.char ',']) := by
  intro bs φ rest starts _
  obtain ⟨χ, first⟩ := h bs φ (.char ',' :: rest) starts.of_append (.of_mem (by decide) (by decide))
  refine ⟨.operand, ?_⟩
  rw [List.append_assoc]
  exact first.trans Passage.comma

/-- The members of a list, each of which is a row. -/
theorem Row.joined {ss : List (List Symbol)} (h : ∀ s ∈ ss, Row s) : Row (joined ss) := by
  induction ss with
  | nil => exact .nil
  | cons s rest ih =>
    simp only [List.mem_cons, forall_eq_or_imp] at h
    cases rest with
    | nil => exact h.1
    | cons s' ss =>
      intro bs φ rest starts follows
      -- a comma is read behind every member, also behind an empty one
      have behind : Follows false (.char ',' :: .char ' ' :: (IndexedLoop.joined (s' :: ss) ++ rest)) :=
        .of_mem (by decide) (by decide)
      obtain ⟨χ, first⟩ := h.1 bs φ _ starts.of_append behind
      obtain ⟨ψ, more⟩ := ih h.2 bs .operand rest (starts_operand _) follows
      refine ⟨ψ, ?_⟩
      simp only [IndexedLoop.joined, List.append_assoc, List.cons_append]
      exact first.trans (Passage.comma.trans (Passage.space.trans more))

/-- A row in parentheses, with what the parentheses stand for. -/
theorem Row.parens (h : Row s) (opens : opens? φ "(" = some (⟨")", ψ⟩, .operand)) :
    Passage 1 bs φ (IndexedLoop.inParens s ++ rest) ψ rest := by
  obtain ⟨χ, inside⟩ := h (⟨")", ψ⟩ :: bs) .operand (.char ')' :: rest) (starts_operand s)
    (.of_mem (by decide) (by decide))
  simpa [IndexedLoop.inParens] using Passage.parens opens (Nat.le_refl 1) inside

/-- In parentheses every row is an operand. -/
theorem Row.inParens (h : Row s) : Operand 1 true (inParens s) :=
  ⟨⟨'(', s ++ [.char ')'], rfl, by decide⟩, fun _ _ _ starts _ => h.parens starts.opens_paren⟩

/-- A row in brackets. -/
theorem Row.brackets (h : Row s) : Passage w bs φ (.char '[' :: (s ++ .char ']' :: rest)) .operator rest := by
  obtain ⟨χ, inside⟩ := h (⟨"]", .operator⟩ :: bs) .operand (.char ']' :: rest) (starts_operand s)
    (.of_mem (by decide) (by decide))
  exact Passage.brackets (opens_bracket φ) inside

/-! ## Sentences -/

/-- The text consists of whole statements, if it stands in braces. -/
def Sentence (s : List Symbol) : Prop :=
  ∀ ψ bs rest, Passage 4 (⟨"\x7d", ψ⟩ :: bs) .statement (s ++ rest) .statement rest

theorem Sentence.nil : Sentence [] := fun _ _ _ => .refl

theorem Sentence.append (h : Sentence s) (h' : Sentence t) : Sentence (s ++ t) := by
  intro ψ bs rest
  rw [List.append_assoc]
  exact (h ψ bs (t ++ rest)).trans (h' ψ bs rest)

/-- Statements in braces. -/
theorem Sentence.braces (h : Sentence s) (opens : opens? φ "\x7b" = some (⟨"\x7d", ψ⟩, .statement)) :
    Passage w bs φ (.char '\x7b' :: .char '\n' :: (s ++ .char '\x7d' :: rest)) ψ rest :=
  Passage.braces opens (Passage.newline.trans (h ψ bs (.char '\x7d' :: rest)))

end IndexedLoop.Scan
