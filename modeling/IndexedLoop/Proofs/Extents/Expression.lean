import IndexedLoop.Proofs.Extents.Primary
import IndexedLoop.Grammar.Expression

/-!
# Expressions in their source

What `new` applies to may be the word `async` with its arguments given back to `new`. The cursor then goes back
behind the word, so it matters that of the primary expressions only this one calls a name
(`calledName_primary`).
-/

namespace IndexedLoop

open Surface Parse

/-! ## Primary expressions that call a name -/

/-- The name that an expression calls, if it does nothing else. -/
def Surface.Expr.calledName? : Surface.Expr → Option Name
  | .call _ (.name n) _ => some n
  | _ => none

namespace Grammar

variable {c : Cursor} {g : Level}

theorem not_called_arrowTail (k : Context) (start : Place) :
    Yields (arrowTail g k start) c fun e _ => e.calledName? = none := by
  simp [arrowTail, Surface.Expr.calledName?]

theorem not_called_functionExpr (k : Context) (start : Place) (isAsync : Bool) :
    Yields (functionExpr g k start isAsync) c fun e _ => e.calledName? = none := by
  have plain (flavour : Flavour) (name : Option Name) (fn : Surface.Function) (extent : Extent) :
      (functionExprOf flavour name fn extent).calledName? = none := by
    unfold functionExprOf
    split
    · rfl
    · split <;> rfl
  simp [functionExpr, plain]

theorem not_called_classExpr (k : Context) (start : Place) :
    Yields (classExpr g k start) c fun e _ => e.calledName? = none := by
  simp only [classExpr, yields_bind, yields_look]
  split <;> simp [Surface.Expr.calledName?]

theorem not_called_newTail (k : Context) (start : Place) :
    Yields (newTail g k start) c fun e _ => e.calledName? = none := by
  simp only [newTail, yields_bind]
  refine (yields_true _ _).mono fun isTarget d _ => Yields.ite ?_ ?_
  · simp [Surface.Expr.calledName?]
  · simp only [yields_bind]
    refine (yields_true _ _).mono fun _ d _ => (yields_true _ _).mono fun _ d _ => Yields.ite ?_ ?_
    · simp [Surface.Expr.calledName?]
    · simp [Surface.Expr.calledName?]

theorem not_called_importTail (k : Context) (extent : Extent) :
    Yields (importTail k extent) c fun e _ => e.calledName? = none := by
  simp only [importTail, yields_bind, yields_look]
  split <;> simp [Surface.Expr.calledName?]

theorem not_called_parens (k : Context) (start : Place) :
    Yields (parens g k start) c fun e _ => e.calledName? = none := by
  have plain (extent : Extent) (list : List (Option Surface.Expr)) :
      ∀ e, parens? extent list = some e → e.calledName? = none := by
    intro e value
    unfold parens? at value
    split at value
    · rw [Option.ite_none_left_eq_some] at value
      have value := value.2
      split at value <;> cases value <;> rfl
    · cases value
  simp only [parens, yields_bind, yields_extentFrom, yields_look, yields_face]
  refine (yields_true _ _).mono fun list d _ => (yields_true _ _).mono fun _ d' _ => Yields.ite ?_ ?_
  · simp only [yields_bind]
    exact (yields_true _ _).mono fun _ _ _ => (yields_true _ _).mono fun _ _ _ => not_called_arrowTail k start
  · split
    · next e value => exact (yields_pure _ _ _).mpr (plain _ _ e value)
    · exact yields_failure _ _

theorem calledName_asyncTail (k : Context) (name : Name) :
    Yields (asyncTail g k name) c fun e _ => ∀ n ∈ e.calledName?, n = name := by
  have arrow {c : Cursor} : Yields (arrowTail g k name.extent.start) c fun e _ => ∀ n ∈ e.calledName?, n = name :=
    (not_called_arrowTail k _).mono fun e _ none => by simp [none]
  have stay : Yields (pure (Surface.Expr.name name)) c fun e _ => ∀ n ∈ e.calledName?, n = name := by
    simp [Surface.Expr.calledName?]
  simp only [asyncTail, yields_bind, yields_look]
  split
  · simp only [yields_bind]
    exact (yields_true _ _).mono fun _ _ _ => arrow
  · simp only [asyncList, yields_bind, yields_extentFrom, yields_look, yields_face]
    refine (yields_true _ _).mono fun _ d _ => (yields_true _ _).mono fun list d _ => ?_
    refine (yields_true _ _).mono fun _ d' _ => Yields.ite ?_ ?_
    · simp only [yields_bind]
      exact (yields_true _ _).mono fun _ _ _ => (yields_true _ _).mono fun _ _ _ => arrow
    · simp [Surface.Expr.calledName?]
  · refine Yields.ite stay ?_
    simp only [yields_bind]
    refine (yields_true _ _).mono fun _ d _ => Yields.ite ?_ ?_
    · exact (not_called_functionExpr k _ _).mono fun e _ none => by simp [none]
    · simp only [yields_bind]
      exact (yields_true _ _).mono fun _ _ _ => arrow
  · exact stay

/-- A primary expression that calls a name starts with it. -/
theorem calledName_primary (k : Context) : Yields (primary g k) c fun e _ =>
    ∀ n ∈ e.calledName?, c.lexeme.token = .word n.text ∧ n.extent = c.lexeme.extent := by
  have none {p : Parse Surface.Expr} {d : Cursor} (h : Yields p d fun e _ => e.calledName? = none) :
      Yields p d fun e _ => ∀ n ∈ e.calledName?, c.lexeme.token = .word n.text ∧ n.extent = c.lexeme.extent :=
    h.mono fun e _ none => by simp [none]
  simp only [primary, yields_bind, yields_look]
  split
  · next text token =>
    simp only [wordExpr]
    split
    · simp only [yields_bind]
      exact (yields_true _ _).mono fun _ _ _ => none (not_called_functionExpr k _ _)
    · simp only [yields_bind]
      exact (yields_true _ _).mono fun _ _ _ => none (not_called_classExpr k _)
    · simp only [yields_bind]
      exact (yields_true _ _).mono fun _ _ _ => none (not_called_newTail k _)
    · simp only [yields_bind]
      refine (yields_true _ _).mono fun _ _ _ => (calledName_asyncTail k _).mono fun e _ called n mem => ?_
      rw [called n mem]
      exact ⟨token, rfl⟩
    · simp only [yields_bind]
      exact (yields_true _ _).mono fun _ _ _ => none (not_called_importTail k _)
    · exact yields_failure _ _
    · exact yields_failure _ _
    · exact yields_failure _ _
    · exact yields_failure _ _
    · exact yields_failure _ _
    · simp [Surface.Expr.calledName?]
    · simp [Surface.Expr.calledName?]
    · simp [Surface.Expr.calledName?]
    · simp [Surface.Expr.calledName?]
    · simp [Surface.Expr.calledName?]
    · simp [Surface.Expr.calledName?]
    · simp only [yields_bind]
      refine (yields_true _ _).mono fun _ _ _ => (yields_true _ _).mono fun _ _ _ => Yields.ite ?_ ?_
      · exact none (not_called_arrowTail k _)
      · simp [Surface.Expr.calledName?]
  · simp [Surface.Expr.calledName?]
  · simp [Surface.Expr.calledName?]
  · simp only [yields_bind]
    exact (yields_true _ _).mono fun _ _ _ => none (not_called_parens k _)
  · simp [arrayTail, Surface.Expr.calledName?]
  · simp [objectTail, Surface.Expr.calledName?]
  · simp [Surface.Expr.calledName?]
  · simp only [decoratedClass, yields_bind]
    exact (yields_true _ _).mono fun _ _ _ => (yields_true _ _).mono fun _ _ _ => none (not_called_classExpr k _)
  · refine Yields.ite ?_ (Yields.ite ?_ (yields_failure _ _))
    · simp only [regex]
      split
      · simp [Surface.Expr.calledName?]
      · exact yields_failure _ _
    · simp [Surface.Expr.calledName?]
  · exact yields_failure _ _

variable {src : List Symbol} {lo : Nat} {xs : List Node} {start : Place} (hg : g.Finds src)
include hg

/-! ## Operands -/

theorem finds_calleeHead (k : Context) : Finds src (calleeHead g k) fun e => [.expr e] := by
  intro c lo near
  simp only [calleeHead, yields_bind, yields_look]
  split
  · simp only [yields_bind, yields_accept, yields_extentFrom, yields_pure]
    exact ((hg.unary _ _).after (near.accept _)).mono fun _ d h => near.node h rfl trivial
  refine Yields.ite ?_ ?_
  · simp only [bareYield, yields_bind, yields_accept, yields_look, yields_guard, yields_pure]
    exact fun _ => near.leaf _ rfl rfl trivial
  · simp only [yields_bind]
    intro e d run
    have h := finds_primary hg k near e d run
    have called := calledName_primary k e d run
    split
    · next name _ =>
      simp only [yields_bind, yields_accept, yields_pure]
      obtain ⟨token, extent⟩ := called name rfl
      have name_eq : name = ⟨c.lexeme.extent, name.text⟩ := by rw [← extent]
      rw [name_eq]
      exact (near.name token _).wrap rfl rfl trivial
    · exact (yields_pure _ _ _).mpr h

theorem finds_callee (k : Context) : Finds src (callee g k) fun e => [.expr e] := by
  intro c lo near
  simp only [callee, yields_bind, yields_guard, yields_pure]
  refine (finds_calleeHead hg k near).mono fun first d h => ?_
  exact (yields_postfixFrom hg k _ h).mono fun e d h _ => h

omit hg in
/-- What is assigned to lies where the expression lay that is taken for it. -/
theorem lies_target {hi : Nat} {e target : Surface.Expr} (h : (Node.expr e).Lies src lo hi)
    (found : e.target? = some target) : (Node.expr target).Lies src lo hi ∧ target.extent = e.extent := by
  have pattern (construct : Construct) :
      (Node.expr (.other (.itself e.extent construct))).Lies src lo hi :=
    Node.lies_iff.mpr ⟨h.extent, trivial, .nil h.extent.ordered⟩
  unfold Surface.Expr.target? at found
  split at found
  · cases found
    exact ⟨h, rfl⟩
  · rw [Option.ite_none_right_eq_some] at found
    cases found.2
    exact ⟨pattern _, rfl⟩
  · rw [Option.ite_none_right_eq_some] at found
    cases found.2
    exact ⟨pattern _, rfl⟩
  · rw [Option.ite_none_right_eq_some] at found
    cases found.2
    exact ⟨h, rfl⟩

omit hg in
theorem eq_of_updateTarget {e target : Surface.Expr} (found : e.updateTarget? = some target) : target = e := by
  unfold Surface.Expr.updateTarget? at found
  split at found
  · rw [Option.ite_none_left_eq_some] at found
    exact (Option.some.inj found.2).symm
  · exact (Option.some.inj found).symm
  · exact (Option.some.inj found).symm
  · exact (Option.some.inj found).symm
  · rw [Option.ite_none_right_eq_some] at found
    exact (Option.some.inj found.2).symm
  · cases found

theorem yields_assignmentTail {e : Surface.Expr} (k : Context) (op : AssignOp) {l : Lexeme}
    (h : ∀ slot, (l.stop.facing slot).Read src lo [.expr e]) :
    Yields (assignmentTail g k e op l) c fun e d => d.Read src lo [.expr e] := by
  simp only [assignmentTail]
  split
  · exact yields_failure _ _
  · next target found =>
    simp only [settle, yields_bind, yields_accept, yields_modify, yields_extentFrom, yields_pure]
    have lies := lined_singleton.mp (h .plain).nodes
    have taken : (Node.expr target).Lies src lo (l.stop.facing .plain).offset ∧ target.extent = e.extent := by
      split at found
      · exact lies_target lies found
      · rw [eq_of_updateTarget found]
        exact ⟨lies, rfl⟩
    have read : (l.stop.facing .plain).Read src lo [.expr target] :=
      ⟨(h .plain).on, lined_singleton.mpr taken.1⟩
    refine ((hg.expr _).after ((Cursor.read_pending _).mpr read)).mono fun value d h => ?_
    rw [← taken.2]
    exact h.extend rfl rfl trivial

omit hg in
/-- Looking at the `=` behind a pattern does not move the cursor. -/
theorem yields_equalsBehind (k : Context) (e : Surface.Expr) {post : Option Lexeme → Cursor → Prop} (none : post none c)
    (some : post (some (c.facing .plain).lexeme) c) : Yields (equalsBehind? g k e) c post := by
  simp only [equalsBehind?, yields_bind, yields_get]
  refine yields_readsOtherwise _ _ _ fun otherwise => ?_
  exact Yields.ite ((yields_pure _ _ _).mpr some) ((yields_pure _ _ _).mpr none)

theorem yields_operandFrom {e : Surface.Expr} (k : Context) (updates : Bool) (h : c.Read src lo [.expr e]) :
    Yields (operandFrom g k updates e) c fun e d => d.Read src lo [.expr e] := by
  simp only [operandFrom, isLoopPattern, yields_bind, yields_get, yields_pure]
  refine Yields.ite ((yields_pure _ _ _).mpr h) ?_
  simp only [yields_bind]
  refine yields_equalsBehind k e ?_ ?_
  · simp only [yields_bind, yields_look]
    refine (yields_postfixFrom hg k _ h).mono fun e d h => ?_
    split
    · exact yields_assignmentTail hg k _ fun slot => h.accept slot
    · exact (yields_pure _ _ _).mpr h
  · exact yields_assignmentTail hg k _ fun slot => ((Cursor.read_facing _).mpr h).accept slot

/-! ## Operators in front of an operand -/

theorem yields_yieldTail (start_in : start.In src) (k : Context) (updates : Bool) (h : c.Read src start.offset []) :
    Yields (yieldTail g k updates start) c fun e d => d.Read src start.offset [.expr e] := by
  simp only [yieldTail, yields_bind, yields_look]
  refine Yields.ite ?_ (Yields.ite ?_ ?_)
  · simp only [yields_bind, yields_accept, yields_extentFrom, yields_pure]
    exact ((hg.expr _).skip (h.accept _)).mono fun _ d h => h.node start_in rfl trivial
  · simp only [yields_bind, yields_extentFrom, yields_pure]
    exact ((hg.expr _).skip h).mono fun _ d h => h.node start_in rfl trivial
  · simp only [yields_bind, yields_extentFrom]
    exact yields_operandFrom hg k updates (h.node start_in rfl trivial)

theorem yields_privateIn (near : c.Near src lo) (k : Context) :
    Yields (privateIn g k c.lexeme) c fun e d => d.Read src lo [.expr e] := by
  have left : (c.lexeme.stop.facing .plain).Read src lo [.expr (.other (.itself c.lexeme.extent .privateName))] :=
    near.leaf _ rfl rfl trivial
  simp only [privateIn, yields_bind, yields_accept, yields_pure]
  refine ((finds_mark _ _).skip left).mono fun _ d left => ?_
  refine (hg.unary _ _ left.on.read.near).mono fun first d h => ?_
  refine (yields_chainFrom hg k _ h).mono fun right d h => ?_
  obtain ⟨mid, hl, hr⟩ := lined_cons.mp (left.append h).nodes
  exact ⟨h.on, lined_singleton.mpr (Expr.lies_join _ hl (lined_singleton.mp hr))⟩

theorem finds_unary (k : Context) (updates : Bool) : Finds src (unary g k updates) fun e => [.expr e] := by
  intro c lo near
  simp only [unary, yields_bind, yields_look]
  split
  · simp only [yields_bind, yields_accept, yields_extentFrom, yields_pure]
    exact ((hg.unary _ _).after (near.accept _)).mono fun _ d h => near.node h rfl trivial
  · simp only [yields_bind, yields_accept, yields_extentFrom]
    refine ((hg.unary _ _).after (near.accept _)).mono fun _ d h => ?_
    exact yields_operandFrom hg k updates (near.node h rfl trivial)
  · split
    · simp only [yields_bind, yields_accept, yields_extentFrom, yields_pure]
      exact ((hg.unary _ _).skip (near.accept _)).mono fun _ d h => near.node h rfl trivial
    · simp only [yields_bind, yields_accept]
      refine (yields_yieldTail hg near.start_in k updates (near.accept _)).mono fun e d h => ?_
      exact h.lower near.lower
    · exact yields_privateIn hg near k
    · simp only [yields_bind]
      exact (finds_primary hg k near).mono fun e d h => yields_operandFrom hg k updates h

/-! ## Expressions -/

theorem yields_conditionalFrom {test : Surface.Expr} (k : Context) (h : c.Read src lo [.expr test]) :
    Yields (conditionalFrom g k test) c fun e d => d.Read src lo [.expr e] := by
  simp only [conditionalFrom, yields_bind]
  refine ((passes_tryPunct _ _).skip h).mono fun asks d h => ?_
  refine Yields.ite ?_ ((yields_pure _ _ _).mpr h)
  simp only [yields_bind, yields_extentFrom, yields_pure]
  refine ((hg.expr _).after h).mono fun consequent d h => ?_
  refine ((finds_expect _ _).skip h).mono fun _ d h => ?_
  exact ((hg.expr _).after h).mono fun alternate d h => h.extend rfl rfl trivial

theorem finds_expr (k : Context) : Finds src (expr g k) fun e => [.expr e] := by
  intro c lo near
  simp only [expr, yields_bind]
  refine (finds_unary hg k true near).mono fun first d h => ?_
  exact (yields_chainFrom hg k _ h).mono fun test d h => yields_conditionalFrom hg k h

theorem yields_exprFrom {first : Surface.Expr} (k : Context) (h : c.Read src lo [.expr first]) :
    Yields (exprFrom g k first) c fun e d => d.Read src lo [.expr e] := by
  simp only [exprFrom, yields_bind]
  refine (yields_operandFrom hg k true h).mono fun first d h => ?_
  exact (yields_chainFrom hg k _ h).mono fun test d h => yields_conditionalFrom hg k h

theorem finds_braced (k : Context) : Finds src (braced g k) fun e => [.expr e] := by
  intro c lo near
  simp only [braced, yields_bind, yields_get, yields_guard, yields_pure]
  refine (finds_objectHead hg k near).mono fun first d h => ?_
  exact (yields_exprFrom hg k h).mono fun e d h _ => h

end Grammar

end IndexedLoop
