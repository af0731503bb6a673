import IndexedLoop.Proofs.Extents.Expression

/-!
# Where an expression ends

The reader of an expression stops where the expression ends: nothing that stands behind it, not even a blank, is
passed (`Grammar.spans_expr`, `Grammar.spans_unary`). An expression starts with the next token, and what follows an
operand extends it up to the cursor (`Parse.Extends`). Of a chain of operators the first operand gives the start and
the last one the end (`Chain.extent_resolve`).
-/

namespace IndexedLoop

open Surface Parse

namespace Parse

variable {α : Type} {start : Place}

/-- The expression that the reader gives goes from a place up to where the reader stops. -/
def SpansFrom (start : Place) (p : Parse Surface.Expr) : Prop := ∀ c, Yields p c fun e d => e.extent = ⟨start, d.place⟩

/-- The reader goes on behind an expression: what it gives starts with the expression and ends where it stops. -/
def Extends (e : Surface.Expr) (p : Parse Surface.Expr) : Prop :=
  ∀ c, e.extent.stop = c.place → Yields p c fun e' d => e'.extent = ⟨e.extent.start, d.place⟩

theorem spansFrom_failure : SpansFrom start failure := fun c => yields_failure c _

/-- What is read before does not matter. -/
theorem spansFrom_bind {p : Parse α} {f : α → Parse Surface.Expr} (h : ∀ a, SpansFrom start (f a)) :
    SpansFrom start (p >>= f) := by
  intro c
  rw [yields_bind]
  exact fun a d _ => h a d

theorem SpansFrom.ite {p q : Parse Surface.Expr} {cond : Prop} [Decidable cond] (hp : SpansFrom start p)
    (hq : SpansFrom start q) : SpansFrom start (if cond then p else q) := fun c => (hp c).ite (hq c)

/-- An expression with the extent up to the cursor. -/
theorem spansFrom_extent {make : Extent → Surface.Expr} (h : ∀ extent, (make extent).extent = extent) :
    SpansFrom start (extentFrom start >>= fun extent => pure (make extent)) := by
  intro c
  simp only [yields_bind, yields_extentFrom, yields_pure]
  exact h _

theorem extends_pure (e : Surface.Expr) : Extends e (pure e) := by
  intro c stop
  rw [yields_pure, ← stop]

/-- A reader that gives an expression from the start of another on extends it. -/
theorem SpansFrom.extends {e : Surface.Expr} {p : Parse Surface.Expr} (h : SpansFrom e.extent.start p) : Extends e p :=
  fun c _ => h c

end Parse

/-! ## Chains of operators -/

namespace Surface.Chain

/-- The first operand of a chain: the one that waits longest. -/
def first : List (Surface.Expr × BinaryOp) → Surface.Expr → Surface.Expr
  | [], e => e
  | (left, _) :: stack, _ => first stack left

/-- The last operand of a chain. -/
def last (e : Surface.Expr) : List (BinaryOp × Surface.Expr) → Surface.Expr
  | [] => e
  | (_, next) :: rest => last next rest

theorem start_first_congr (stack : List (Surface.Expr × BinaryOp)) {e e' : Surface.Expr}
    (h : e.extent.start = e'.extent.start) : (first stack e).extent.start = (first stack e').extent.start := by
  cases stack with
  | nil => exact h
  | cons top stack => rfl

theorem extent_finish (stack : List (Surface.Expr × BinaryOp)) (e : Surface.Expr) :
    (finish stack e).extent = ⟨(first stack e).extent.start, e.extent.stop⟩ := by
  induction stack generalizing e with
  | nil => rfl
  | cons top stack ih =>
    rw [finish, ih, first]
    exact congrArg (Extent.mk · _) (start_first_congr stack rfl)

theorem start_unwind (next : BinaryOp) (stack : List (Surface.Expr × BinaryOp)) (e : Surface.Expr) :
    (first (unwind next stack e).1 (unwind next stack e).2).extent.start = (first stack e).extent.start := by
  induction stack generalizing e with
  | nil => rfl
  | cons top stack ih =>
    rw [unwind]
    split
    · rw [ih, first]
      exact start_first_congr stack rfl
    · rfl

theorem extent_resolveFrom (stack : List (Surface.Expr × BinaryOp)) (e : Surface.Expr)
    (rest : List (BinaryOp × Surface.Expr)) :
    (resolveFrom stack e rest).extent = ⟨(first stack e).extent.start, (last e rest).extent.stop⟩ := by
  induction rest generalizing stack e with
  | nil => exact extent_finish stack e
  | cons next rest ih =>
    rw [resolveFrom, ih, last]
    exact congrArg (Extent.mk · _) (start_unwind next.1 stack e)

/-- A chain goes from its first operand to its last. -/
theorem extent_resolve (e : Surface.Expr) (rest : List (BinaryOp × Surface.Expr)) :
    (resolve e rest).extent = ⟨e.extent.start, (last e rest).extent.stop⟩ := extent_resolveFrom [] e rest

end Surface.Chain

namespace Grammar

variable {g : Level} {start : Place}

/-! ## Primary expressions -/

theorem spansFrom_arrowTail (k : Context) : SpansFrom start (arrowTail g k start) :=
  spansFrom_bind fun _ => spansFrom_extent fun _ => rfl

theorem spansFrom_functionExpr (k : Context) (isAsync : Bool) : SpansFrom start (functionExpr g k start isAsync) := by
  refine spansFrom_bind fun _ => spansFrom_bind fun _ => spansFrom_bind fun _ => spansFrom_extent fun extent => ?_
  unfold functionExprOf
  split
  · rfl
  · split <;> rfl

theorem spansFrom_classExpr (k : Context) : SpansFrom start (classExpr g k start) := by
  have tail : SpansFrom start (do
      classTail g k.operand
      return .other (.itself (← extentFrom start) .classExpression)) :=
    spansFrom_bind fun _ => spansFrom_extent fun _ => rfl
  exact spansFrom_bind fun next => tail.ite (spansFrom_bind fun _ => tail)

theorem spansFrom_newTail (k : Context) : SpansFrom start (newTail g k start) := by
  have tail (callee : Surface.Expr) (args : List Surface.Expr) : SpansFrom start (do
      return .new (← extentFrom start) callee args) :=
    spansFrom_extent fun _ => rfl
  refine spansFrom_bind fun isTarget => SpansFrom.ite ?_ ?_
  · exact spansFrom_bind fun _ => spansFrom_extent fun _ => rfl
  · refine spansFrom_bind fun callee => spansFrom_bind fun hasArgs => SpansFrom.ite ?_ ?_
    · exact spansFrom_bind fun _ => spansFrom_bind fun _ => tail callee _
    · exact spansFrom_bind fun _ => tail callee _

theorem extends_importTail (k : Context) (extent : Extent) :
    Extends (.other (.itself extent .importKeyword)) (importTail k extent) := by
  intro c stop
  simp only [importTail, yields_bind, yields_look]
  refine Yields.ite ?_ ?_
  · exact (spansFrom_bind fun _ => spansFrom_bind fun _ => spansFrom_extent fun _ => rfl) c
  · simp only [yields_bind, yields_guard, yields_pure]
    intro _
    exact extends_pure _ c stop _ _ rfl

/-- Parentheses go from the one to the other. -/
theorem extent_parens {extent : Extent} {list : List (Option Surface.Expr)} {e : Surface.Expr}
    (value : parens? extent list = some e) : e.extent = extent := by
  unfold parens? at value
  split at value
  · rw [Option.ite_none_left_eq_some] at value
    have value := value.2
    split at value <;> cases value <;> rfl
  · cases value

theorem spansFrom_parens (k : Context) : SpansFrom start (parens g k start) := by
  intro c
  simp only [parens, yields_bind, yields_extentFrom, yields_look, yields_face]
  refine (yields_true _ _).mono fun list d _ => yields_readsOtherwise _ _ _ fun otherwise => Yields.ite ?_ ?_
  · exact (spansFrom_bind fun _ => spansFrom_bind fun _ => spansFrom_arrowTail k) (d.facing k.target)
  · split
    · next e value => exact (yields_pure _ _ _).mpr (extent_parens value)
    · exact yields_failure _ _

theorem extends_asyncTail (k : Context) (name : Name) : Extends (.name name) (asyncTail g k name) := by
  intro c stop
  have arrow : SpansFrom name.extent.start (arrowTail g k name.extent.start) := spansFrom_arrowTail k
  have stay := extends_pure (.name name) c stop
  simp only [asyncTail, yields_bind, yields_look]
  split
  · simp only [yields_bind, yields_accept]
    exact arrow _
  · simp only [asyncList, yields_bind, yields_extentFrom, yields_look, yields_face]
    refine (yields_true _ _).mono fun _ d _ => (yields_true _ _).mono fun list d _ => ?_
    refine yields_readsOtherwise _ _ _ fun otherwise => Yields.ite ?_ ((yields_pure _ _ _).mpr rfl)
    simp only [yields_bind]
    exact (yields_true _ _).mono fun _ _ _ => (yields_true _ _).mono fun _ _ _ => arrow _
  · refine Yields.ite stay ?_
    simp only [yields_bind, yields_accept]
    refine Yields.ite (spansFrom_functionExpr k true _) ?_
    simp only [yields_bind]
    exact (yields_true _ _).mono fun _ _ _ => arrow _
  · exact stay

theorem yields_wordExpr_extent (k : Context) (l : Lexeme) (text : String) (c : Cursor) :
    Yields (wordExpr g k l text) c fun e d => e.extent = ⟨l.start.place, d.place⟩ := by
  unfold wordExpr
  split
  · exact (spansFrom_bind fun _ => spansFrom_functionExpr k false) c
  · exact (spansFrom_bind fun _ => spansFrom_classExpr k) c
  · exact (spansFrom_bind fun _ => spansFrom_newTail k) c
  · simp only [yields_bind, yields_accept]
    exact extends_asyncTail k _ _ rfl
  · simp only [yields_bind, yields_accept]
    exact extends_importTail k _ _ rfl
  iterate 5 exact yields_failure _ _
  iterate 6
    · simp only [yields_bind, yields_accept, yields_pure]
      rfl
  · simp only [yields_bind, yields_accept, yields_tryPunct]
    split
    · simp only [↓reduceIte]
      exact spansFrom_arrowTail k _
    · simp only [Bool.false_eq_true, ↓reduceIte, yields_pure]
      rfl

theorem yields_regex_extent (l : Lexeme) (slot : Slot) (c : Cursor) :
    Yields (regex l slot) c fun e d => e.extent = ⟨l.start.place, d.place⟩ := by
  unfold regex
  split
  · simp only [yields_bind, yields_set, yields_get, yields_pure]
    exact (yields_true _ _).mono fun _ _ _ => rfl
  · exact yields_failure _ _

theorem spans_primary (k : Context) : Spans (primary g k) := by
  intro c
  simp only [primary, yields_bind, yields_look]
  split
  · exact yields_wordExpr_extent k _ _ c
  · simp only [yields_bind, yields_accept, yields_pure]
    rfl
  · simp only [yields_bind, yields_accept, yields_pure]
    rfl
  · exact (spansFrom_bind fun _ => spansFrom_parens k) c
  · exact (spansFrom_bind fun _ => spansFrom_bind fun _ => spansFrom_extent fun _ => rfl) c
  · exact (spansFrom_bind fun _ => spansFrom_bind fun _ => spansFrom_extent fun _ => rfl) c
  · exact (spansFrom_bind fun _ => spansFrom_bind fun _ => spansFrom_extent fun _ => rfl) c
  · exact (spansFrom_bind fun _ => spansFrom_bind fun _ => spansFrom_classExpr k) c
  · refine Yields.ite (yields_regex_extent _ _ c) (Yields.ite ?_ (yields_failure _ _))
    exact (spansFrom_bind fun _ => spansFrom_extent fun _ => rfl) c
  · exact yields_failure _ _

/-! ## Operands -/

theorem spansFrom_dotTail (k : Context) (object : Surface.Expr) :
    SpansFrom object.extent.start (dotTail k object) := by
  refine spansFrom_bind fun l => ?_
  split
  · exact spansFrom_bind fun _ => spansFrom_extent fun _ => rfl
  · exact spansFrom_bind fun _ => spansFrom_extent fun _ => rfl
  · exact spansFrom_failure

theorem spansFrom_optionalTail (k : Context) (object : Surface.Expr) :
    SpansFrom object.extent.start (optionalTail g k object) := by
  refine spansFrom_bind fun l => ?_
  split
  · exact spansFrom_bind fun _ => spansFrom_extent fun _ => rfl
  · exact spansFrom_bind fun _ => spansFrom_extent fun _ => rfl
  · exact spansFrom_bind fun _ => spansFrom_bind fun _ => spansFrom_bind fun _ => spansFrom_extent fun _ => rfl
  · exact spansFrom_bind fun _ => spansFrom_bind fun _ => spansFrom_bind fun _ => spansFrom_extent fun _ => rfl
  · exact spansFrom_failure

theorem extends_postfixIn (k : Context) (r : Reach) (n : List Symbol) (e : Surface.Expr) :
    Extends e (postfixIn g k r n e) := by
  induction n generalizing e with
  | nil => exact spansFrom_failure.extends
  | cons x n ih =>
    intro c stop
    -- whatever is read makes up an expression from the same start on, behind which the reader goes on
    have more {e' : Surface.Expr} {d : Cursor} (extent : e'.extent = ⟨e.extent.start, d.place⟩) :
        Yields (postfixIn g k r n e') d fun e'' d => e''.extent = ⟨e.extent.start, d.place⟩ := by
      simpa only [extent] using ih e' d (by rw [extent])
    have stay : Yields (pure e) c fun e' d => e'.extent = ⟨e.extent.start, d.place⟩ := extends_pure e c stop
    simp only [postfixIn, yields_bind, yields_look]
    split
    · refine Yields.ite ?_ stay
      simp only [yields_bind, yields_accept]
      exact (spansFrom_dotTail k e _).mono fun _ _ => more
    · refine Yields.ite ?_ stay
      simp only [yields_bind, yields_accept]
      exact (spansFrom_optionalTail k e _).mono fun _ _ => more
    · refine Yields.ite ?_ stay
      simp only [yields_bind, yields_guard, yields_accept, yields_extentFrom]
      exact fun _ => (yields_true _ _).mono fun _ _ _ => more rfl
    · refine Yields.ite ?_ stay
      simp only [yields_bind, yields_guard, yields_accept, yields_extentFrom]
      exact fun _ => (yields_true _ _).mono fun _ _ _ => more rfl
    · refine Yields.ite ?_ stay
      simp only [yields_bind, yields_accept, yields_extentFrom]
      exact (yields_true _ _).mono fun _ _ _ => more rfl
    · split
      · refine Yields.ite ?_ stay
        simp only [yields_bind, yields_accept, yields_extentFrom]
        exact more rfl
      · exact stay
    · exact stay

theorem spansFrom_assignmentTail (k : Context) (e : Surface.Expr) (op : AssignOp) (l : Lexeme) :
    SpansFrom e.extent.start (assignmentTail g k e op l) := by
  unfold assignmentTail
  split
  · exact spansFrom_failure
  · exact spansFrom_bind fun _ => spansFrom_bind fun _ => spansFrom_bind fun _ => spansFrom_extent fun _ => rfl

theorem extends_operandFrom (k : Context) (updates : Bool) (e : Surface.Expr) :
    Extends e (operandFrom g k updates e) := by
  intro c stop
  simp only [operandFrom, isLoopPattern, yields_bind, yields_get, yields_pure]
  refine Yields.ite (extends_pure e c stop) ?_
  simp only [yields_bind]
  refine yields_equalsBehind k e ?_ (spansFrom_assignmentTail k e _ _ c)
  simp only [yields_bind, yields_look]
  refine (extends_postfixIn k _ _ e c stop).mono fun e' d extent => ?_
  have start : e'.extent.start = e.extent.start := by rw [extent]
  split
  · exact start ▸ spansFrom_assignmentTail k e' _ _ d
  · exact (yields_pure _ _ _).mpr extent

theorem spansFrom_yieldTail (k : Context) (updates : Bool) : SpansFrom start (yieldTail g k updates start) := by
  refine spansFrom_bind fun next => SpansFrom.ite ?_ (SpansFrom.ite ?_ ?_)
  · exact spansFrom_bind fun _ => spansFrom_bind fun _ => spansFrom_extent fun _ => rfl
  · exact spansFrom_bind fun _ => spansFrom_extent fun _ => rfl
  · intro c
    simp only [yields_bind, yields_extentFrom]
    exact extends_operandFrom k updates _ c rfl

section

variable (hg : ∀ k updates, Spans (g.unary k updates))
include hg

theorem yields_chainIn_stop (k : Context) (admits : BinaryOp → Bool) (n : List Symbol) {c : Cursor} {e : Surface.Expr}
    (stop : e.extent.stop = c.place) :
    Yields (chainIn g k admits n) c fun ops d => (Chain.last e ops).extent.stop = d.place := by
  induction n generalizing c e with
  | nil => exact yields_failure _ _
  | cons x n ih =>
    simp only [chainIn, yields_bind, yields_look]
    split
    · exact (yields_pure _ _ _).mpr stop
    · refine Yields.ite ?_ ((yields_pure _ _ _).mpr stop)
      simp only [yields_bind, yields_accept, yields_pure]
      refine (hg _ _ _).mono fun right d extent => ?_
      exact ih (e := right) (by rw [extent])

theorem extends_chainFrom (k : Context) (admits : BinaryOp → Bool) (e : Surface.Expr) :
    Extends e (chainFrom g k admits e) := by
  intro c stop
  simp only [chainFrom, yields_bind, yields_rounds, yields_pure]
  refine (yields_chainIn_stop hg k admits _ stop).mono fun ops d stop => ?_
  rw [Chain.extent_resolve, stop]

theorem spans_unary (k : Context) (updates : Bool) : Spans (unary g k updates) := by
  intro c
  simp only [unary, yields_bind, yields_look]
  split
  · exact (spansFrom_bind fun _ => spansFrom_bind fun _ => spansFrom_extent fun _ => rfl) c
  · simp only [yields_bind, yields_accept, yields_extentFrom]
    exact (yields_true _ _).mono fun _ _ _ => extends_operandFrom k updates _ _ rfl
  · split
    · exact (spansFrom_bind fun _ => spansFrom_bind fun _ => spansFrom_extent fun _ => rfl) c
    · exact (spansFrom_bind fun _ => spansFrom_yieldTail k updates) c
    · simp only [privateIn, yields_bind, yields_accept, yields_pure]
      refine (yields_true _ _).mono fun _ d _ => (hg _ _ d).mono fun first d extent => ?_
      refine (extends_chainFrom hg k _ first d (by rw [extent])).mono fun right d extent => ?_
      rw [Surface.Expr.join, Surface.Expr.extent, Extent.join, extent]
      rfl
    · simp only [yields_bind]
      refine (spans_primary k c).mono fun e d extent => ?_
      simpa only [extent] using extends_operandFrom k updates e d (by rw [extent])

/-! ## Expressions -/

omit hg in
theorem extends_conditionalFrom (k : Context) (test : Surface.Expr) : Extends test (conditionalFrom g k test) := by
  intro c stop
  simp only [conditionalFrom, yields_bind, yields_tryPunct]
  split
  · simp only [↓reduceIte]
    exact (spansFrom_bind fun _ => spansFrom_bind fun _ => spansFrom_bind fun _ => spansFrom_extent fun _ => rfl) _
  · simp only [Bool.false_eq_true, ↓reduceIte]
    exact extends_pure test c stop

theorem spans_expr (k : Context) : Spans (expr g k) := by
  intro c
  simp only [expr, yields_bind]
  refine (spans_unary hg k true c).mono fun first d extent => ?_
  refine (extends_chainFrom hg k _ first d (by rw [extent])).mono fun test d extent' => ?_
  rw [extent] at extent'
  simpa only [extent'] using extends_conditionalFrom k test d (by rw [extent'])

end

end Grammar

end IndexedLoop
