import IndexedLoop.Proofs.RoundTrip.Lead
import IndexedLoop.Proofs.RoundTrip.Stands

/-!
# What nested readers read

The readers of a `Level` read the texts of canonical trees that are shorter than a bound (`Level.Covers`).
Behind an expression the cursor stands in front of a tail and sees its mark (`Cursor.Meets`); behind a
statement it sees what follows (`Cursor.Starts`).
-/

namespace IndexedLoop

open Lexical Parse

/-! ## Cursors behind an operand -/

namespace Cursor

/-- The cursor stands in front of a tail and sees its mark. -/
structure Meets (c : Cursor) (t : Tail) : Prop where
  rest : c.rest = t.text
  sees : c.Sees t.view

/-- The cursor stands behind an operand in a context. -/
def Behind (c : Cursor) (k : Context) (t : Tail) : Prop := ∃ words, c.At ⟨k.ends, true, words⟩ t.text

variable {c : Cursor} {k : Context} {t : Tail}

theorem Meets.token (h : c.Meets t) : c.lexeme.token = t.mark.token := h.sees.token

theorem Meets.isPunct (h : c.Meets t) (p : String) : c.lexeme.isPunct p = (t.mark.token == .punct p) :=
  h.sees.isPunct p

theorem Meets.isWord (h : c.Meets t) (w : String) : c.lexeme.isWord w = (t.mark.token == .word w) :=
  h.sees.isWord w

theorem Meets.accept (h : c.Meets t) (slot : Slot) : (c.lexeme.stop.facing slot).At slot t.rest :=
  h.sees.accept slot

theorem Meets.pending (h : c.Meets t) : c.pending = [] := h.sees.pending

/-- Where no operand is complete, a mark is the token that it is, and no question mark is seen. -/
theorem Meets.plain (h : c.Meets t) : (c.facing .plain).lexeme.token =
    if t.mark = .ask then .unreadable else t.mark.token := by
  have plain : (c.facing .plain).At .plain t.text := ⟨rfl, h.rest, h.pending⟩
  rw [plain.sees.token, t.view_plain]

theorem Behind.meets (h : c.Behind k t) (brace : t.mark = .close .brace → k.ends = false) : c.Meets t := by
  obtain ⟨words, at_⟩ := h
  refine ⟨at_.rest, ?_⟩
  rw [← t.view_of ⟨k.ends, true, words⟩ (fun _ => rfl) brace]
  exact at_.sees

/-- A mark that starts a text is seen, unless it is a question mark. -/
theorem Starts.tail (h : c.Starts t.text) (ask : t.mark ≠ .ask) : c.Sees t.view := by
  rw [← t.view_of .plain (fun e => absurd e ask) (fun _ => rfl)]
  exact h

theorem Behind.rest (h : c.Behind k t) : c.rest = t.text := by
  obtain ⟨words, at_⟩ := h
  exact at_.rest

theorem Behind.facing_plain (h : c.Behind k t) : (c.facing .plain).lexeme.token =
    if t.mark = .ask then .unreadable else t.mark.token := by
  obtain ⟨words, at_⟩ := h
  rw [(at_.facing .plain).sees.token, t.view_plain]

theorem Behind.of_operand (h : c.At k.operand t.text) : c.Behind k t := ⟨_, h⟩

theorem Behind.of_target (h : c.At k.target t.text) : c.Behind k t := ⟨_, h⟩

theorem Behind.of_right (h : c.Behind k.right t) : c.Behind k t := h

end Cursor

namespace Mark

/-- The marks that end an expression. -/
def isClose : Mark → Bool
  | .close _ => true
  | _ => false

/-- The marks that go on with an operand. -/
def isPostfix : Mark → Bool
  | .dot | .bracket | .paren | .update _ => true
  | _ => false

/-- The marks that may stand behind an operand with the operators in front of it. -/
def isBoundary : Mark → Bool
  | .binary _ | .ask | .close _ => true
  | _ => false

/-- The mark may stand behind an operand in the context: no statement ends in front of a brace, and no
operator follows the first operand of a header. -/
structure Suits (m : Mark) (k : Context) : Prop where
  brace : m = .close .brace → k.ends = false
  header : k.header = true → ∀ op, m ≠ .binary op

theorem Suits.right {m : Mark} {k : Context} (h : m.Suits k) : m.Suits k.right :=
  ⟨h.brace, fun e => by cases e⟩

theorem Suits.of_ne {m : Mark} (k : Context) (brace : m ≠ .close .brace) (binary : ∀ op, m ≠ .binary op) :
    m.Suits k :=
  ⟨fun e => absurd e brace, fun _ => binary⟩

end Mark

/-! ## Texts that are read -/

namespace Expr

/-- The expression is no bare word, so parentheses can stand around it. -/
def isCompound : Expr → Bool
  | .identifier _ | .this _ => false
  | _ => true

/-- The expression is one operand: no conditional, and no sequence. -/
def isUnit : Expr → Bool
  | .conditional .. | .sequence .. => false
  | _ => true

/-- The text of an operand in front of a mark. Assignments and functions without parentheses are whole
expressions. -/
inductive Shows (e : Expr) (m : Mark) : List Symbol → Prop
  | parens (compound : e.isCompound = true) : Shows e m (inParens e.text)
  | bare (unit : e.isUnit = true) (loose : e.isLoose = true → m.isClose = true) : Shows e m e.text

/-- The text of an expression without a comma at its top. -/
inductive Written : Expr → List Symbol → Prop
  | listed (e : Expr) : Written e e.listed
  | parens {e : Expr} (compound : e.isCompound = true) : Written e (inParens e.text)
  | operation (span : Span) (op : BinaryOp) (left right : Expr) :
    Written (.binary span op left right) (operation op left right)

theorem isCompound_of_isLoose {e : Expr} (h : e.isLoose = true) : e.isCompound = true := by
  cases e <;> simp_all [isLoose, isCompound]

theorem isUnit_of_isLoose {e : Expr} (h : e.isLoose = false) : e.isUnit = true := by
  cases e <;> simp_all [isLoose, isUnit]

theorem shows_textIf (e : Expr) (m : Mark) : e.Shows m (e.textIf e.isLoose) := by
  cases h : e.isLoose with
  | true => exact .parens (isCompound_of_isLoose h)
  | false => exact .bare (isUnit_of_isLoose h) fun loose => absurd loose (by simp [h])

end Expr

theorem Expr.Written.lead {rule : TargetRule} {e : Expr} {text : List Symbol} (h : e.Written text)
    (canonical : e.Canonical rule) (t : Tail) (dot : t.mark ≠ .dot) : Lead t.mark (text ++ t.text) := by
  cases h with
  | listed => exact lead_textIf fun _ => e.lead canonical t fun _ => dot
  | parens => exact Lead.of_parens _ _ _
  | operation span op left right =>
    have := lead_textIf (b := left.isLoose || (op == .pow && left.isSigned)) fun _ =>
      left.lead canonical.1 (.operated op (right.textIf right.isLoose ++ t.text)) fun _ => by
        simp [Tail.operated]
    simpa [Expr.operation, Tail.text_operated] using this.of_mark (by simp [Tail.operated])

namespace Token

/-- The token is written, and does not go on with a block or a function in front of it. -/
structure Opens (t : Token) : Prop where
  written : t ≠ .inserted
  continues : t.continuesOperand false = false
  equals : t ≠ .punct "="

end Token

/-- What may stand behind a statement. -/
inductive Next : List Symbol → Prop
  | finish : Next []
  | brace (rest : List Symbol) : Next (.char '\x7d' :: rest)
  | otherwise (rest : List Symbol) : Next (.char ' ' :: (Symbol.ofString "else" ++ .char ' ' :: rest))
  | text {s : List Symbol} (calm : Calm s) (opens : (View.of .plain s).token.Opens) : Next s

/-- The readers of the level read the texts of canonical trees shorter than `n`. -/
structure Level.Covers (rule : TargetRule) (g : Level) (n : Nat) : Prop where
  expr {e : Expr} {text : List Symbol} {k : Context} {t : Tail} {c : Cursor} (canonical : e.Canonical rule)
    (written : e.Written text) (short : text.length < n) (close : t.mark.isClose = true)
    (suits : t.mark.Suits k) (header : k.header = false) (starts : c.Starts (text ++ t.text)) :
    Reads (g.expr k) c fun s d => s.Stands e ∧ d.Meets t
  unary {e : Expr} {text : List Symbol} {k : Context} {updates : Bool} {t : Tail} {c : Cursor}
    (canonical : e.Canonical rule) (short : text.length < n) (shows_ : e.Shows t.mark text)
    (boundary : t.mark.isBoundary = true) (suits : t.mark.Suits k) (place : updates = false → e.IsPlace)
    (starts : c.Starts (text ++ t.text)) :
    Reads (g.unary k updates) c fun s d => s.Stands e ∧ d.Meets t
  callee {e : Expr} {k : Context} {t : Tail} {c : Cursor} (canonical : e.Canonical rule)
    (short : (e.textIf (!e.isPlainCallee)).length < n) (call : t.mark = .paren)
    (starts : c.Starts (e.textIf (!e.isPlainCallee) ++ t.text)) :
    Reads (g.callee k) c fun s d => s.Stands e ∧ d.Meets t
  stmt {s : Stmt} {rest : List Symbol} {c : Cursor} (canonical : s.Canonical rule)
    (short : s.text.length < n) (next : Next rest)
    (dangling : s.endsInOpenIf = true → (View.of .plain rest).token ≠ .word "else")
    (starts : c.Starts (s.text ++ rest)) : Reads (g.stmt false) c fun s' d => s'.Stands s ∧ d.Starts rest

end IndexedLoop
