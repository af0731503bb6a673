import IndexedLoop.Grammar.Statement
import IndexedLoop.Proofs.Extents.Reading

/-!
# Where a comma belongs

The readers of what stands between commas give no sequence (`Parse.Single`): parentheses around a sequence stay in
the surface tree, and what an operator joins is no sequence either. So a sequence takes all commas up to its end
(`Grammar.single_expr`, `Grammar.single_unary`).
-/

namespace IndexedLoop

open Surface Parse

namespace Parse

variable {α : Type}

theorem single_pure {e : Surface.Expr} (h : e.isSequence = false) : Single (pure e) := fun c =>
  (yields_pure _ c _).mpr h

theorem single_failure : Single failure := fun c => yields_failure c _

/-- What is read before an expression does not matter. -/
theorem single_bind {p : Parse α} {f : α → Parse Surface.Expr} (h : ∀ a, Single (f a)) : Single (p >>= f) := by
  intro c
  rw [yields_bind]
  exact fun a d _ => h a d

/-- An expression that goes on from one without a comma. -/
theorem Single.bind {p : Parse Surface.Expr} {f : Surface.Expr → Parse Surface.Expr} (hp : Single p)
    (hf : ∀ e, e.isSequence = false → Single (f e)) : Single (p >>= f) := by
  intro c
  rw [yields_bind]
  exact (hp c).mono fun e d single => hf e single d

theorem Single.ite {p q : Parse Surface.Expr} {cond : Prop} [Decidable cond] (hp : Single p) (hq : Single q) :
    Single (if cond then p else q) := fun c => (hp c).ite (hq c)

end Parse

/-! ## Chains of operators -/

namespace Surface.Chain

theorem isSequence_finish {e : Surface.Expr} (h : e.isSequence = false) (stack : List (Surface.Expr × BinaryOp)) :
    (finish stack e).isSequence = false := by
  induction stack generalizing e with
  | nil => exact h
  | cons top stack ih => exact ih rfl

/-- With an operand that waits, the whole is joined by an operator. -/
theorem isSequence_resolveFrom (waiting : Surface.Expr × BinaryOp) (stack : List (Surface.Expr × BinaryOp))
    (e : Surface.Expr) (rest : List (BinaryOp × Surface.Expr)) :
    (resolveFrom (waiting :: stack) e rest).isSequence = false := by
  induction rest generalizing waiting stack e with
  | nil => exact isSequence_finish rfl stack
  | cons next rest ih => exact ih _ _ _

theorem isSequence_resolve {first : Surface.Expr} (h : first.isSequence = false)
    (rest : List (BinaryOp × Surface.Expr)) : (resolve first rest).isSequence = false := by
  cases rest with
  | nil => exact h
  | cons next rest => exact isSequence_resolveFrom _ _ _ rest

end Surface.Chain

namespace Grammar

variable {g : Level} {start : Place}

theorem single_chainFrom (k : Context) (admits : BinaryOp → Bool) {first : Surface.Expr}
    (h : first.isSequence = false) : Single (chainFrom g k admits first) :=
  single_bind fun rest => single_pure (Chain.isSequence_resolve h rest)

/-! ## Primary expressions -/

theorem single_arrowTail (k : Context) : Single (arrowTail g k start) :=
  single_bind fun _ => single_bind fun _ => single_pure rfl

theorem isSequence_functionExprOf (flavour : Flavour) (name : Option Name) (fn : Surface.Function) (extent : Extent) :
    (functionExprOf flavour name fn extent).isSequence = false := by
  unfold functionExprOf
  split
  · rfl
  · split <;> rfl

theorem single_functionExpr (k : Context) (isAsync : Bool) : Single (functionExpr g k start isAsync) :=
  single_bind fun _ => single_bind fun _ => single_bind fun _ => single_bind fun _ =>
    single_pure (isSequence_functionExprOf ..)

theorem single_classExpr (k : Context) : Single (classExpr g k start) := by
  have tail : Single (do
      classTail g k.operand
      return .other (.itself (← extentFrom start) .classExpression)) :=
    single_bind fun _ => single_bind fun _ => single_pure rfl
  exact single_bind fun next => tail.ite (single_bind fun _ => tail)

theorem single_newTail (k : Context) : Single (newTail g k start) := by
  have tail (callee : Surface.Expr) (args : List Surface.Expr) : Single (do
      return .new (← extentFrom start) callee args) :=
    single_bind fun _ => single_pure rfl
  refine single_bind fun isTarget => Single.ite ?_ ?_
  · exact single_bind fun _ => single_bind fun _ => single_pure rfl
  · refine single_bind fun callee => single_bind fun hasArgs => Single.ite ?_ ?_
    · exact single_bind fun _ => single_bind fun _ => tail callee _
    · exact single_bind fun _ => tail callee _

theorem single_importTail (k : Context) (extent : Extent) : Single (importTail k extent) := by
  refine single_bind fun next => Single.ite ?_ ?_
  · exact single_bind fun _ => single_bind fun _ => single_bind fun _ => single_pure rfl
  · exact single_bind fun _ => single_pure rfl

/-- Parentheses stay around what stands in them. -/
theorem isSequence_parens {extent : Extent} {list : List (Option Surface.Expr)} {e : Surface.Expr}
    (value : parens? extent list = some e) : e.isSequence = false := by
  unfold parens? at value
  split at value
  · rw [Option.ite_none_left_eq_some] at value
    have value := value.2
    split at value <;> cases value <;> rfl
  · cases value

theorem single_parens (k : Context) : Single (parens g k start) := by
  have arrow (l : Lexeme) (list : List (Option Surface.Expr)) : Single (do
      accept l .plain
      takeParams list
      arrowTail g k start) :=
    single_bind fun _ => single_bind fun _ => single_arrowTail k
  refine single_bind fun list => single_bind fun extent => single_bind fun next => single_bind fun _ => ?_
  refine single_bind fun otherwise => (arrow next list).ite ?_
  split
  · next e value => exact single_pure (isSequence_parens value)
  · exact single_failure

theorem single_asyncTail (k : Context) (name : Name) : Single (asyncTail g k name) := by
  refine single_bind fun next => ?_
  split
  · exact single_bind fun _ => single_arrowTail k
  · refine single_bind fun _ => single_bind fun list => single_bind fun _ => single_bind fun _ => ?_
    refine single_bind fun _ => single_bind fun _ => Single.ite ?_ (single_pure rfl)
    exact single_bind fun _ => single_bind fun _ => single_arrowTail k
  · refine Single.ite (single_pure rfl) (single_bind fun _ => ?_)
    exact (single_functionExpr k true).ite (single_bind fun _ => single_arrowTail k)
  · exact single_pure rfl

theorem single_wordExpr (k : Context) (l : Lexeme) (text : String) : Single (wordExpr g k l text) := by
  unfold wordExpr
  split
  · exact single_bind fun _ => single_functionExpr k false
  · exact single_bind fun _ => single_classExpr k
  · exact single_bind fun _ => single_newTail k
  · exact single_bind fun _ => single_asyncTail k _
  · exact single_bind fun _ => single_importTail k _
  iterate 5 exact single_failure
  iterate 6 exact single_bind fun _ => single_pure rfl
  · exact single_bind fun _ => single_bind fun _ => (single_arrowTail k).ite (single_pure rfl)

theorem single_regex (l : Lexeme) (slot : Slot) : Single (regex l slot) := by
  unfold regex
  split
  · exact single_bind fun _ => single_bind fun _ => single_bind fun _ => single_pure rfl
  · exact single_failure

theorem single_primary (k : Context) : Single (primary g k) := by
  refine single_bind fun l => ?_
  split
  · exact single_wordExpr k l _
  · exact single_bind fun _ => single_pure rfl
  · exact single_bind fun _ => single_pure rfl
  · exact single_bind fun _ => single_parens k
  · exact single_bind fun _ => single_bind fun _ => single_bind fun _ => single_pure rfl
  · exact single_bind fun _ => single_bind fun _ => single_bind fun _ => single_pure rfl
  · exact single_bind fun _ => single_bind fun _ => single_bind fun _ => single_pure rfl
  · exact single_bind fun _ => single_bind fun _ => single_classExpr k
  · refine (single_regex l _).ite (Single.ite ?_ single_failure)
    exact single_bind fun _ => single_bind fun _ => single_pure rfl
  · exact single_failure

/-! ## Operands -/

theorem single_dotTail (k : Context) (object : Surface.Expr) : Single (dotTail k object) := by
  refine single_bind fun l => ?_
  split
  · exact single_bind fun _ => single_bind fun _ => single_pure rfl
  · exact single_bind fun _ => single_bind fun _ => single_pure rfl
  · exact single_failure

theorem single_optionalTail (k : Context) (object : Surface.Expr) : Single (optionalTail g k object) := by
  refine single_bind fun l => ?_
  split
  · exact single_bind fun _ => single_bind fun _ => single_pure rfl
  · exact single_bind fun _ => single_bind fun _ => single_pure rfl
  · exact single_bind fun _ => single_bind fun _ => single_bind fun _ => single_bind fun _ => single_pure rfl
  · exact single_bind fun _ => single_bind fun _ => single_bind fun _ => single_bind fun _ => single_pure rfl
  · exact single_failure

theorem single_postfixIn (k : Context) (r : Reach) (n : List Symbol) {e : Surface.Expr} (h : e.isSequence = false) :
    Single (postfixIn g k r n e) := by
  induction n generalizing e with
  | nil => exact single_failure
  | cons x n ih =>
    have done : Single (pure e) := single_pure h
    refine single_bind fun l => ?_
    split
    · exact (single_bind fun _ => (single_dotTail k e).bind fun _ => ih).ite done
    · exact (single_bind fun _ => (single_optionalTail k e).bind fun _ => ih).ite done
    · exact Single.ite (single_bind fun _ => single_bind fun _ => single_bind fun _ => single_bind fun _ => ih rfl) done
    · exact Single.ite (single_bind fun _ => single_bind fun _ => single_bind fun _ => single_bind fun _ => ih rfl) done
    · exact Single.ite (single_bind fun _ => single_bind fun _ => single_bind fun _ => ih rfl) done
    · split
      · exact Single.ite (single_bind fun _ => single_bind fun _ => ih rfl) done
      · exact done
    · exact done

theorem single_postfixFrom (k : Context) (r : Reach) {e : Surface.Expr} (h : e.isSequence = false) :
    Single (postfixFrom g k r e) := fun c => single_postfixIn k r _ h c

theorem single_assignmentTail (k : Context) (e : Surface.Expr) (op : AssignOp) (l : Lexeme) :
    Single (assignmentTail g k e op l) := by
  unfold assignmentTail
  split
  · exact single_failure
  · exact single_bind fun _ => single_bind fun _ => single_bind fun _ => single_bind fun _ => single_pure rfl

theorem single_operandFrom (k : Context) (updates : Bool) {e : Surface.Expr} (h : e.isSequence = false) :
    Single (operandFrom g k updates e) := by
  refine single_bind fun isPattern => Single.ite (single_pure h) (single_bind fun equals => ?_)
  split
  · exact single_assignmentTail k e _ _
  · refine (single_postfixFrom k _ h).bind fun e h => single_bind fun l => ?_
    split
    · exact single_assignmentTail k e _ l
    · exact single_pure h

theorem single_yieldTail (k : Context) (updates : Bool) : Single (yieldTail g k updates start) := by
  refine single_bind fun next => Single.ite ?_ (Single.ite ?_ ?_)
  · exact single_bind fun _ => single_bind fun _ => single_bind fun _ => single_pure rfl
  · exact single_bind fun _ => single_bind fun _ => single_pure rfl
  · exact single_bind fun _ => single_operandFrom k updates rfl

theorem single_unary (k : Context) (updates : Bool) : Single (unary g k updates) := by
  refine single_bind fun l => ?_
  split
  · exact single_bind fun _ => single_bind fun _ => single_bind fun _ => single_pure rfl
  · exact single_bind fun _ => single_bind fun _ => single_bind fun _ => single_operandFrom k updates rfl
  · split
    · exact single_bind fun _ => single_bind fun _ => single_bind fun _ => single_pure rfl
    · exact single_bind fun _ => single_yieldTail k updates
    · exact single_bind fun _ => single_bind fun _ => single_bind fun _ => single_bind fun _ => single_pure rfl
    · exact (single_primary k).bind fun _ => single_operandFrom k updates

/-! ## Expressions -/

theorem single_conditionalFrom (k : Context) {test : Surface.Expr} (h : test.isSequence = false) :
    Single (conditionalFrom g k test) := by
  refine single_bind fun asks => Single.ite ?_ (single_pure h)
  exact single_bind fun _ => single_bind fun _ => single_bind fun _ => single_bind fun _ => single_pure rfl

theorem single_expr (k : Context) : Single (expr g k) :=
  (single_unary k true).bind fun _ h =>
    (single_chainFrom k _ h).bind fun _ h => single_conditionalFrom k h

theorem single_exprFrom (k : Context) {first : Surface.Expr} (h : first.isSequence = false) :
    Single (exprFrom g k first) :=
  (single_operandFrom k true h).bind fun _ h =>
    (single_chainFrom k _ h).bind fun _ h => single_conditionalFrom k h

theorem single_objectHead (k : Context) : Single (objectHead g k) :=
  single_bind fun _ => single_bind fun _ => single_bind fun _ => single_bind fun _ => single_bind fun _ =>
    single_pure rfl

theorem single_braced (k : Context) : Single (braced g k) :=
  single_bind fun _ => (single_objectHead k).bind fun _ h =>
    (single_exprFrom k h).bind fun _ h => single_bind fun _ => single_bind fun _ => single_pure h

/-! ## Lists -/

section Lists

variable (hg : ∀ k, Single (g.expr k)) {c : Cursor}
include hg

theorem single_item : Single (item g) := by
  refine single_bind fun _ => Single.ite ?_ (hg _)
  exact single_bind fun _ => single_bind fun _ => single_bind fun _ => single_pure rfl

theorem single_entriesIn (close : String) (slot : Slot) (n : List Symbol) :
    Yields (entriesIn g close slot n) c fun list _ => ∀ e ∈ list.reduceOption, e.isSequence = false := by
  induction n generalizing c with
  | nil => exact yields_failure _ _
  | cons x n ih =>
    simp only [entriesIn, yields_bind, yields_look]
    refine Yields.ite ?_ (Yields.ite ?_ ?_)
    · simp
    · simp only [yields_bind, yields_accept, yields_pure]
      exact ih
    · simp only [yields_bind]
      refine (single_item hg c).mono fun e d single => (yields_true _ _).mono fun more d _ => Yields.ite ?_ ?_
      · simp only [yields_bind, yields_pure]
        exact ih.mono fun list d rest => List.forall_mem_cons.mpr ⟨single, rest⟩
      · simp only [yields_bind, yields_pure]
        exact (yields_true _ _).mono fun _ _ _ => List.forall_mem_singleton.mpr single

theorem single_entries (close : String) (slot : Slot) :
    Yields (entries g close slot) c fun list _ => ∀ e ∈ list.reduceOption, e.isSequence = false :=
  single_entriesIn hg close slot _

theorem single_moreIn (k : Context) (n : List Symbol) :
    Yields (moreIn g k n) c fun es _ => ∀ e ∈ es, e.isSequence = false := by
  induction n generalizing c with
  | nil => exact yields_failure _ _
  | cons x n ih =>
    simp only [moreIn, yields_bind]
    refine (yields_true _ _).mono fun more d _ => Yields.ite ?_ ?_
    · simp only [yields_bind, yields_pure]
      exact (hg _ d).mono fun e d single => ih.mono fun es _ rest => List.forall_mem_cons.mpr ⟨single, rest⟩
    · simp

end Lists

end Grammar

end IndexedLoop
