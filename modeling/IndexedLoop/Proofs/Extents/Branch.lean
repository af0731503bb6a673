import IndexedLoop.Grammar.Statement
import IndexedLoop.Proofs.Extents.Reading

/-!
# Where an `else` belongs

An `if` takes the `else` behind its consequent. So no `else` is left behind a statement that ends in an `if`
without one (`Grammar.settles_statement`), and it belongs to the last `if` that it can belong to. Only an `if`
without an `else` and what it ends make a statement open: the readers of all other statements give closed ones
(`Parse.Closes`).
-/

namespace IndexedLoop

open Surface Parse

namespace Parse

variable {α : Type}

/-- The reader gives statements that end in no `if` without an `else`. -/
def Closes (p : Parse Surface.Stmt) : Prop := ∀ c, Yields p c fun s _ => s.endsInOpenIf = false

theorem Closes.settles {p : Parse Surface.Stmt} (h : Closes p) : Settles p := fun c =>
  (h c).mono fun _ _ closed isOpen => absurd (closed.symm.trans isOpen) Bool.false_ne_true

theorem closes_pure {s : Surface.Stmt} (h : s.endsInOpenIf = false) : Closes (pure s) := fun c =>
  (yields_pure _ c _).mpr h

theorem closes_bind {p : Parse α} {f : α → Parse Surface.Stmt} (h : ∀ a, Closes (f a)) : Closes (p >>= f) := by
  intro c
  rw [yields_bind]
  exact fun a d _ => h a d

/-- What is read before a statement does not matter. -/
theorem settles_bind {p : Parse α} {f : α → Parse Surface.Stmt} (h : ∀ a, Settles (f a)) : Settles (p >>= f) := by
  intro c
  rw [yields_bind]
  exact fun a d _ => h a d

theorem Closes.ite {p q : Parse Surface.Stmt} {cond : Prop} [Decidable cond] (hp : Closes p) (hq : Closes q) :
    Closes (if cond then p else q) := fun c => (hp c).ite (hq c)

theorem Closes.contest {p q : Parse Surface.Stmt} {doubtful : Cursor → Surface.Stmt → Cursor → Bool}
    {prefers : Parse Bool} (hp : Closes p) (hq : Closes q) : Closes (contest p q doubtful prefers) := fun c =>
  (hp c).contest (hq c)

end Parse

namespace Grammar

variable {g : Level} {start : Place}

/-! ## Closed statements -/

theorem closes_expressionStatementFrom (first : Surface.Expr) : Closes (expressionStatementFrom g first) :=
  closes_bind fun _ => closes_bind fun _ => closes_bind fun _ => closes_bind fun _ => closes_pure rfl

theorem closes_expressionStatement : Closes (expressionStatement g) :=
  closes_bind fun _ => closes_expressionStatementFrom _

theorem closes_operandStatement (first : Surface.Expr) : Closes (operandStatement g first) :=
  closes_bind fun _ => closes_expressionStatementFrom _

theorem closes_blockStatement (alone : Bool) : Closes (blockStatement g alone) := by
  refine closes_bind fun b => closes_bind fun next => ?_
  split
  · exact closes_bind fun _ => (closes_operandStatement _).ite (closes_pure rfl)
  · exact closes_bind fun _ => closes_bind fun _ => closes_pure rfl

theorem closes_braceStatement (alone : Bool) (l : Lexeme) : Closes (braceStatement g alone l) := by
  have block : Closes (blockStatement g alone) := closes_blockStatement alone
  have object : Closes (objectStatement g) := closes_bind fun _ => closes_expressionStatementFrom _
  simp only [braceStatement]
  split
  · exact block
  · exact object
  · exact object.contest block
  · exact block.contest object

theorem closes_returnStatement : Closes (returnStatement g start) :=
  closes_bind fun _ => Closes.ite (closes_bind fun _ => closes_bind fun _ => closes_pure rfl)
    (closes_bind fun _ => closes_bind fun _ => closes_bind fun _ => closes_pure rfl)

theorem closes_breakStatement : Closes (breakStatement start) := by
  refine closes_bind fun labelled => closes_bind fun _ => closes_pure ?_
  split <;> rfl

theorem closes_continueStatement : Closes (continueStatement start) := by
  refine closes_bind fun labelled => closes_bind fun _ => closes_pure ?_
  split <;> rfl

theorem closes_doStatement : Closes (doStatement g start) := by
  have closing : Closes (do return .other ⟨← extentFrom start, .doStatement⟩) :=
    closes_bind fun _ => closes_pure rfl
  refine closes_bind fun _ => closes_bind fun _ => closes_bind fun _ => closes_bind fun _ => closes_bind fun _ => ?_
  exact Closes.ite (closes_bind fun _ => closing) closing

theorem closes_switchStatement : Closes (switchStatement g start) :=
  closes_bind fun _ => closes_bind fun _ => closes_bind fun _ => closes_bind fun _ => closes_pure rfl

theorem closes_tryStatement : Closes (tryStatement g start) := by
  have closing : Closes (do
      if ← tryWord "finally" .plain then
        let _ ← block g .plain
      return .other ⟨← extentFrom start, .tryStatement⟩) :=
    closes_bind fun _ => Closes.ite (closes_bind fun _ => closes_bind fun _ => closes_pure rfl)
      (closes_bind fun _ => closes_pure rfl)
  refine closes_bind fun _ => closes_bind fun _ => Closes.ite (closes_bind fun _ => Closes.ite ?_ ?_) closing
  · exact closes_bind fun _ => closes_bind fun _ => closes_bind fun _ => closing
  · exact closes_bind fun _ => closing

theorem closes_importStatement : Closes (importStatement g start) := by
  have closing : Closes (do
      semicolon
      return .other ⟨← extentFrom start, .importStatement⟩) :=
    closes_bind fun _ => closes_bind fun _ => closes_pure rfl
  refine closes_bind fun _ => closes_bind fun _ => Closes.ite ?_ closing
  exact closes_bind fun _ => closes_bind fun _ => closes_bind fun _ => closing

theorem closes_exportStatement (decorated : Bool) : Closes (exportStatement g start decorated) := by
  have closing (p : Parse Unit) : Closes (do
      p
      return .other ⟨← extentFrom start, .exportStatement⟩) :=
    closes_bind fun _ => closes_bind fun _ => closes_pure rfl
  refine closes_bind fun l => ?_
  split
  · refine closes_bind fun _ => closes_bind fun _ => closes_bind fun _ => Closes.ite ?_ ?_
    · exact closes_bind fun _ => closes_bind fun _ => closing _
    · exact closes_bind fun _ => closing _
  · refine closes_bind fun _ => closes_bind fun _ => closes_bind fun _ => closes_bind fun _ => Closes.ite ?_ ?_
    · exact closes_bind fun _ => closing _
    · exact closing _
  · exact closes_bind fun _ => closing _
  · exact closing _

/-- A definition is a function or a class, and no `if`. -/
theorem yields_definition_closed (l : Lexeme) (asyncSlot slot : Slot) (c : Cursor) :
    Yields (definition g start l asyncSlot slot) c fun d _ => ∀ e, (d.stmt e).endsInOpenIf = false := by
  have function (isAsync : Bool) (c : Cursor) : Yields (functionDefinition g start isAsync slot) c
      fun d _ => ∀ e, (d.stmt e).endsInOpenIf = false := by
    simp only [functionDefinition, yields_bind, yields_pure]
    exact fun _ _ _ _ _ _ _ _ _ _ => rfl
  simp only [definition]
  refine Yields.ite ?_ (Yields.ite ?_ ?_)
  · simp only [yields_bind, yields_accept]
    exact function _ _
  · simp only [yields_bind, yields_accept]
    exact function _ _
  · simp only [classDefinition, yields_bind, yields_guard, yields_accept, yields_pure]
    exact fun _ _ _ _ _ _ _ _ => rfl

theorem closes_definitionStatement (alone : Bool) (l : Lexeme) : Closes (definitionStatement g alone start l) := by
  intro c
  simp only [definitionStatement, yields_bind]
  refine (yields_definition_closed l _ _ c).mono fun x d closed => ?_
  intro goes d' _
  refine Yields.ite ?_ ?_
  · simp only [yields_bind]
    exact fun _ d _ => closes_operandStatement _ d
  · simp only [Definition.declare, yields_bind, yields_extentFrom, yields_pure]
    exact fun _ _ _ => closed _

theorem closes_decoratedStatement (alone : Bool) : Closes (decoratedStatement g alone start) := by
  refine closes_bind fun _ => closes_bind fun l => Closes.ite ?_ (Closes.ite ?_ ?_)
  · exact closes_bind fun _ => closes_exportStatement true
  · exact closes_definitionStatement alone l
  · exact closes_bind fun _ => closes_bind fun _ => closes_bind fun _ => closes_operandStatement _

theorem closes_wordStatement (alone : Bool) (l : Lexeme) (w : String) : Closes (wordStatement g alone l w) := by
  simp only [wordStatement]
  refine Closes.ite ?_ (Closes.ite ?_ (Closes.ite ?_ (Closes.ite ?_ ?_)))
  · exact closes_bind fun _ => closes_bind fun _ => closes_bind fun _ => closes_bind fun _ => closes_bind fun _ =>
      closes_pure rfl
  · exact closes_bind fun _ => closes_importStatement
  · exact closes_bind fun _ => closes_exportStatement false
  · exact closes_definitionStatement alone l
  · split
    · exact closes_bind fun _ => closes_bind fun _ => closes_pure rfl
    · exact closes_expressionStatement

/-! ## Open statements -/

section Open

variable (hg : ∀ alone, Settles (g.stmt alone))
include hg

theorem settles_ifStatement (alone : Bool) : Settles (ifStatement g alone start) := by
  refine settles_bind fun test => settles_bind fun consequent => ?_
  intro c
  simp only [yields_bind, yields_tryWord]
  split
  · simp only [if_true, yields_bind, yields_extentFrom, yields_pure]
    exact hg alone _
  · next other =>
    simp only [Bool.false_eq_true, if_false, yields_bind, yields_extentFrom, yields_pure]
    exact fun _ => Bool.eq_false_iff.mpr other

theorem settles_forStatement (alone : Bool) : Settles (forStatement g alone start) := by
  refine settles_bind fun isAwait => settles_bind fun _ => settles_bind fun h => ?_
  intro c
  simp only [yields_bind, yields_extentFrom]
  refine (hg alone c).mono fun body d settled => ?_
  split
  · exact (closes_pure rfl).settles d
  · exact (yields_pure _ _ _).mpr settled

theorem settles_whileStatement (alone : Bool) : Settles (whileStatement g alone start) := by
  refine settles_bind fun test => ?_
  intro c
  simp only [yields_bind, yields_extentFrom, yields_pure]
  exact hg alone c

theorem settles_keywordStatement (alone : Bool) (l : Lexeme) {p : Parse Surface.Stmt}
    (found : keywordStatement? g alone l = some p) : Settles p := by
  have behind {slot : Slot} {tail : Parse Surface.Stmt} (h : Settles tail)
      (found : (some do
        accept l slot
        tail) = some p) : Settles p := by
    cases found
    exact settles_bind fun _ => h
  unfold keywordStatement? at found
  split at found
  · exact behind (settles_ifStatement hg alone) found
  · exact behind (settles_forStatement hg alone) found
  · exact behind (settles_whileStatement hg alone) found
  · exact behind closes_doStatement.settles found
  · exact behind closes_switchStatement.settles found
  · exact behind closes_tryStatement.settles found
  · refine behind (Closes.settles ?_) found
    exact closes_bind fun _ => closes_bind fun _ => closes_bind fun _ => closes_pure rfl
  · exact behind closes_returnStatement.settles found
  · refine behind (Closes.settles ?_) found
    exact closes_bind fun _ => closes_bind fun _ => closes_bind fun _ => closes_pure rfl
  · exact behind closes_breakStatement.settles found
  · exact behind closes_continueStatement.settles found
  · refine behind (Closes.settles ?_) found
    exact closes_bind fun _ => closes_bind fun _ => closes_pure rfl
  · cases found

/-- No `else` follows a statement that ends in an `if` without one. -/
theorem settles_statement (alone : Bool) : Settles (statement g alone) := by
  refine settles_bind fun l => ?_
  split
  · exact (closes_braceStatement alone l).settles
  · exact (closes_bind fun _ => closes_pure rfl).settles
  · exact (closes_decoratedStatement alone).settles
  · next w _ =>
    cases found : keywordStatement? g alone l with
    | some p => exact settles_keywordStatement hg alone l found
    | none => exact (closes_wordStatement alone l w).settles
  · exact closes_expressionStatement.settles

end Open

end Grammar

end IndexedLoop
