import IndexedLoop.Proofs.RoundTrip.Bare
import IndexedLoop.Source

/-!
# The `if` an `else` belongs to

In a text an `else` belongs to the nearest `if` in front of it that has none. `Stmt.isOpen` says of a
statement that its text ends in such an `if`. The printer asks `Stmt.endsInOpenIf` instead, which looks for
an absent alternate and not for an absent text. The two differ where the last `if` has an alternate without
a text, and an unknown statement is the only one that has none (`Stmt.text_eq_empty_iff`).

* `Stmt.isOpen_eq`: a text is open where the last alternate is absent or lost, and nowhere else;
* `Stmt.own_else_iff`: a printed `else` belongs to its own `if` unless the consequent ends in a lost one.
-/

namespace IndexedLoop

namespace Stmt

/-- The text of the statement ends in an `if` without an `else`, which would take an `else` that follows. -/
def isOpen : Stmt → Bool
  | .ifElse ⟨_, _, _, none⟩ => true
  | .ifElse ⟨_, _, _, some alternate⟩ => alternate.render.text.isEmpty || alternate.isOpen
  | .forLoop ⟨_, _, _, _, body⟩ => body.isOpen
  | .whileLoop ⟨_, _, body⟩ => body.isOpen
  | _ => false

/-- The statement is an unknown one. -/
def isUnknown : Stmt → Bool
  | .unknown _ => true
  | _ => false

/-- The statement ends in an `if` whose alternate is an unknown statement. -/
def endsInLostElse : Stmt → Bool
  | .ifElse ⟨_, _, _, some alternate⟩ => alternate.isUnknown || alternate.endsInLostElse
  | .forLoop ⟨_, _, _, _, body⟩ => body.endsInLostElse
  | .whileLoop ⟨_, _, body⟩ => body.endsInLostElse
  | _ => false

/-! ## Statements without a text -/

theorem text_ifElseText_ne_empty (test consequent alternate : Rendered) (openIf : Bool) :
    (ifElseText test consequent alternate openIf).text ≠ "" := by
  unfold ifElseText
  split
  · simp
  · split <;> simp

/-- An unknown statement is the only one without a text. -/
theorem text_eq_empty_iff (s : Stmt) : s.render.text = "" ↔ s.isUnknown = true := by
  cases s with
  | ifElse branch =>
    obtain ⟨_, test, consequent, _ | alternate⟩ := branch
    · simp [render, isUnknown, text_ifElseText_ne_empty]
    · simp [render, isUnknown, text_ifElseText_ne_empty]
  | block b =>
    obtain ⟨_, body⟩ := b
    simp [render, Block.render, isUnknown]
  | unknown node => simp [render, isUnknown, Rendered.missing]
  | expression _ expr => simp [render, expressionText, isUnknown]
  | brk _ | cont _ | empty _ => simp [render, isUnknown]
  | functionDecl fn =>
    obtain ⟨_, id, params, body⟩ := fn
    simp [render, isUnknown]
  | forLoop loop =>
    obtain ⟨_, init, test, update, body⟩ := loop
    simp [render, isUnknown]
  | whileLoop loop =>
    obtain ⟨_, test, body⟩ := loop
    simp [render, isUnknown]
  | declaration _ | ret _ _ | throw _ _ => simp [render, isUnknown]

theorem isEmpty_text (s : Stmt) : s.render.text.isEmpty = s.isUnknown := by
  rw [Bool.eq_iff_iff, String.isEmpty_iff, text_eq_empty_iff]

/-! ## Open texts -/

/-- A text is open where the last alternate is absent or lost. -/
theorem isOpen_eq : ∀ s : Stmt, s.isOpen = (s.endsInOpenIf || s.endsInLostElse)
  | .ifElse ⟨_, _, _, none⟩ => rfl
  | .ifElse ⟨_, _, _, some alternate⟩ => by
    rw [isOpen, endsInOpenIf, endsInLostElse, isEmpty_text, alternate.isOpen_eq, Bool.or_left_comm]
  | .forLoop ⟨_, _, _, _, body⟩ => by rw [isOpen, endsInOpenIf, endsInLostElse, body.isOpen_eq]
  | .whileLoop ⟨_, _, body⟩ => by rw [isOpen, endsInOpenIf, endsInLostElse, body.isOpen_eq]
  | .declaration _ | .functionDecl _ | .block _ | .ret _ _ | .brk _ | .cont _ | .throw _ _ | .empty _
  | .expression _ _ | .unknown _ => rfl

/-- The last `if` has its alternate or has it not: no statement ends in both ways. -/
theorem endsInLostElse_of_endsInOpenIf : ∀ s : Stmt, s.endsInOpenIf = true → s.endsInLostElse = false
  | .ifElse ⟨_, _, _, none⟩, _ => rfl
  | .ifElse ⟨_, _, _, some alternate⟩, h => by
    rw [endsInOpenIf] at h
    have known : alternate.isUnknown = false := by cases alternate <;> first | rfl | cases h
    rw [endsInLostElse, known, alternate.endsInLostElse_of_endsInOpenIf h, Bool.false_or]
  | .forLoop ⟨_, _, _, _, body⟩, h => by
    rw [endsInOpenIf] at h
    rw [endsInLostElse, body.endsInLostElse_of_endsInOpenIf h]
  | .whileLoop ⟨_, _, body⟩, h => by
    rw [endsInOpenIf] at h
    rw [endsInLostElse, body.endsInLostElse_of_endsInOpenIf h]

/-! ## Printed branches -/

/-- A consequent as it stands between the head of its `if` and an `else`. -/
def consequentText (braced : Bool) (consequent : Stmt) : String :=
  if braced then "\x7b\n" ++ consequent.render.text ++ "\x7d" else consequent.render.text

theorem text_ifElse_else (span : Span) (test : Expr) (consequent : Stmt) {alternate : Stmt}
    (printed : alternate.render.text ≠ "") :
    (ifElse ⟨span, test, consequent, some alternate⟩).render.text =
      "if (" ++ test.render.text ++ ")" ++ consequentText consequent.endsInOpenIf consequent ++ " else "
        ++ alternate.render.text := by
  have filled : alternate.render.text.isEmpty = false := by
    rw [Bool.eq_false_iff, Ne, String.isEmpty_iff]
    exact printed
  rw [render, ifElseText, filled, consequentText]
  cases consequent.endsInOpenIf with
  | true =>
    have split : "\x7d else " = "\x7d" ++ " else " := rfl
    simp only [split, Rendered.text_append, Rendered.text_ofText, if_true, String.append_assoc, Bool.false_eq_true,
      if_false]
  | false => simp only [Rendered.text_append, Rendered.text_ofText, Bool.false_eq_true, if_false]

/-- A printed `else` follows a consequent that stands in braces or does not. It belongs to its own `if`, since
the consequent stands in braces or is not open, exactly where the consequent does not end in a lost alternate. -/
theorem own_else_iff (span : Span) (test : Expr) (consequent alternate : Stmt)
    (printed : alternate.render.text ≠ "") :
    ∃ braced : Bool,
      (ifElse ⟨span, test, consequent, some alternate⟩).render.text =
        "if (" ++ test.render.text ++ ")" ++ consequentText braced consequent ++ " else " ++ alternate.render.text ∧
      (braced = true ∨ consequent.isOpen = false ↔ consequent.endsInLostElse = false) := by
  refine ⟨consequent.endsInOpenIf, text_ifElse_else span test consequent printed, ?_⟩
  rw [isOpen_eq]
  have apart := consequent.endsInLostElse_of_endsInOpenIf
  revert apart
  cases consequent.endsInOpenIf <;> cases consequent.endsInLostElse <;> simp

/-- `while (b) if (c) d;` -/
def exampleGuarded : Stmt :=
  .whileLoop ⟨.none, .identifier ⟨.none, "b"⟩,
    .ifElse ⟨.none, .identifier ⟨.none, "c"⟩, .expression .none (.identifier ⟨.none, "d"⟩), none⟩⟩

theorem own_else_exampleGuarded :
    (Stmt.brk .none).render.text ≠ "" ∧
    (∃ braced : Bool,
      (ifElse ⟨.none, .identifier ⟨.none, "a"⟩, exampleGuarded, some (.brk .none)⟩).render.text =
        "if (" ++ "a" ++ ")" ++ consequentText braced exampleGuarded ++ " else " ++ "break;\n" ∧
      (braced = true ∨ exampleGuarded.isOpen = false)) ∧
    exampleGuarded.isOpen = true := by
  have printed : (Stmt.brk .none).render.text ≠ "" := by decide
  obtain ⟨braced, text, owned⟩ := own_else_iff .none (.identifier ⟨.none, "a"⟩) exampleGuarded (.brk .none) printed
  exact ⟨printed, ⟨braced, text, owned.mpr rfl⟩, rfl⟩

/-- `if (a) b; else debugger;`, whose alternate has no text -/
def exampleLost : Stmt :=
  .ifElse ⟨.none, .identifier ⟨.none, "a"⟩, .expression .none (.identifier ⟨.none, "b"⟩),
    some (.unknown ⟨.none, "debugger_statement"⟩)⟩

/-- `if (x) if (a) b; else debugger; else d;` -/
def exampleTaken : Stmt :=
  .ifElse ⟨.none, .identifier ⟨.none, "x"⟩, exampleLost, some (.expression .none (.identifier ⟨.none, "d"⟩))⟩

/-- A consequent that ends in a lost alternate is open and stands without braces in front of an `else`. The
inner `if` takes the `else`: the outer one has its own, and reads back from its text as an open one. -/
theorem else_taken_exampleTaken :
    exampleTaken.render.text = "if (" ++ "x" ++ ")" ++ consequentText false exampleLost ++ " else " ++ "d;\n" ∧
    exampleLost.isOpen = true ∧ exampleTaken.isOpen = false ∧
    (Reading.ofText? "" exampleTaken.render.text).map (fun r => r.program.body.map isOpen) = some [true] := by
  refine ⟨by decide +kernel, by decide +kernel, by decide +kernel, by decide +kernel⟩

end Stmt

end IndexedLoop
