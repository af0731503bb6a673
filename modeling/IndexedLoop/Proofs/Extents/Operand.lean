import IndexedLoop.Proofs.Extents.Function
import IndexedLoop.Grammar.Operand

/-!
# Operands in their source

What follows an operand extends it from its start on. A chain of operands becomes a tree in which the operands
keep their places: those that wait for their right side lie in front of the current one, in the order of the
source (`Chain.waiting`).
-/

namespace IndexedLoop

open Surface Parse

/-! ## Chains -/

namespace Surface

variable {src : List Symbol} {lo mid mid' hi : Nat}

/-- Two operands side by side are joined to one that covers both. -/
theorem Expr.lies_join (op : BinaryOp) {left right : Expr} (hl : (Node.expr left).Lies src lo mid)
    (hr : (Node.expr right).Lies src mid hi) : (Node.expr (.join op left right)).Lies src lo hi := by
  have el := hl.extent
  have er := hr.extent
  refine Node.lies_iff.mpr ⟨⟨el.start, er.stop, el.lower, ?_, er.upper⟩, trivial, ?_⟩
  · exact el.ordered.trans (el.upper.trans (er.lower.trans er.ordered))
  · exact .cons (hl.tight.mono le_rfl el.upper) (lined_singleton.mpr hr.upper)

namespace Chain

/-- The operands that wait on a stack, in the order of the source. -/
def waiting (stack : List (Expr × BinaryOp)) : List Node := stack.reverse.map fun x => .expr x.1

theorem waiting_cons (left : Expr) (op : BinaryOp) (stack : List (Expr × BinaryOp)) :
    waiting ((left, op) :: stack) = waiting stack ++ [.expr left] := by
  simp [waiting]

/-- The operand on top of a stack lies behind those below it. -/
theorem allLie_waiting_cons {left : Expr} {op : BinaryOp} {stack : List (Expr × BinaryOp)} :
    Node.AllLie src lo mid (waiting ((left, op) :: stack)) ↔
      ∃ m, Node.AllLie src lo m (waiting stack) ∧ (Node.expr left).Lies src m mid := by
  simp only [waiting_cons, lined_append, lined_singleton]

theorem lies_finish {stack : List (Expr × BinaryOp)} {e : Expr} (waits : Node.AllLie src lo mid (waiting stack))
    (h : (Node.expr e).Lies src mid hi) : (Node.expr (finish stack e)).Lies src lo hi := by
  induction stack generalizing e mid with
  | nil => exact h.mono waits.le le_rfl
  | cons top stack ih =>
    obtain ⟨m, waits, left⟩ := allLie_waiting_cons.mp waits
    exact ih waits (Expr.lies_join top.2 left h)

theorem lie_unwind (next : BinaryOp) {stack : List (Expr × BinaryOp)} {e : Expr}
    (waits : Node.AllLie src lo mid (waiting stack)) (h : (Node.expr e).Lies src mid hi) :
    ∃ m, Node.AllLie src lo m (waiting (unwind next stack e).1) ∧
      (Node.expr (unwind next stack e).2).Lies src m hi := by
  induction stack generalizing e mid with
  | nil => exact ⟨mid, waits, h⟩
  | cons top stack ih =>
    rw [unwind]
    split
    · obtain ⟨m, waits, left⟩ := allLie_waiting_cons.mp waits
      exact ih waits (Expr.lies_join top.2 left h)
    · exact ⟨mid, waits, h⟩

/-- The tree of a chain lies where the chain does. -/
theorem lies_resolveFrom {stack : List (Expr × BinaryOp)} {e : Expr} {rest : List (BinaryOp × Expr)}
    (waits : Node.AllLie src lo mid (waiting stack)) (h : (Node.expr e).Lies src mid mid')
    (more : Node.AllLie src mid' hi (rest.map fun x => .expr x.2)) :
    (Node.expr (resolveFrom stack e rest)).Lies src lo hi := by
  induction rest generalizing stack e mid mid' with
  | nil => exact lies_finish waits (h.mono le_rfl more.le)
  | cons first rest ih =>
    obtain ⟨m, waits, left⟩ := lie_unwind first.1 waits h
    obtain ⟨m', next, more⟩ := lined_cons.mp more
    exact ih (allLie_waiting_cons.mpr ⟨m, waits, left⟩) next more

theorem lies_resolve {first : Expr} {rest : List (BinaryOp × Expr)}
    (h : Node.AllLie src lo hi (.expr first :: rest.map fun x => .expr x.2)) :
    (Node.expr (resolve first rest)).Lies src lo hi := by
  obtain ⟨mid, first, more⟩ := lined_cons.mp h
  exact lies_resolveFrom (.nil le_rfl) first more

end Chain

end Surface

namespace Grammar

variable {src : List Symbol} {lo : Nat} {c : Cursor} {xs : List Node} {g : Level} (hg : g.Finds src)
include hg

theorem yields_chainIn (k : Context) (admits : BinaryOp → Bool) (n : List Symbol) (h : c.Read src lo xs) :
    Yields (chainIn g k admits n) c fun ops d => d.Read src lo (xs ++ ops.map fun x => .expr x.2) := by
  induction n generalizing c xs with
  | nil => exact yields_failure _ _
  | cons x n ih =>
    simp only [chainIn, yields_bind, yields_look]
    split
    · simpa using h
    split
    · simp only [yields_bind, yields_accept, yields_pure]
      refine ((hg.unary _ _).after (h.accept _)).mono fun right d h => ?_
      refine (ih h).mono fun ops d h => ?_
      rwa [List.append_assoc] at h
    · simpa using h

theorem yields_chainFrom (k : Context) (admits : BinaryOp → Bool) {first : Surface.Expr}
    (h : c.Read src lo [.expr first]) :
    Yields (chainFrom g k admits first) c fun e d => d.Read src lo [.expr e] := by
  simp only [chainFrom, yields_bind, yields_rounds, yields_pure]
  refine (yields_chainIn hg k admits _ h).mono fun ops d h => ?_
  exact ⟨h.on, lined_singleton.mpr (Chain.lies_resolve h.nodes)⟩

/-! ## What follows an operand -/

theorem yields_templateIn (slot : Slot) (n : List Symbol) (h : c.Read src lo xs) :
    Yields (templateIn g slot n) c fun _ d => d.Read src lo xs := by
  induction n generalizing c with
  | nil => exact yields_failure _ _
  | cons x n ih =>
    simp only [templateIn, yields_bind, yields_get]
    split
    · exact yields_failure _ _
    · simp only [yields_set, Cursor.read_facing]
      exact h.advance _
    · simp only [yields_bind, yields_set]
      refine ((finds_enclosed hg _ _).skip ((Cursor.read_facing _).mpr (h.advance _))).mono fun _ d h => ?_
      exact ih h

theorem yields_template (slot : Slot) (h : c.Read src lo xs) :
    Yields (template g slot) c fun _ d => d.Read src lo xs := yields_templateIn hg slot _ h

variable {e : Surface.Expr}

omit hg in
theorem yields_dotTail (k : Context) (h : c.Read src lo [.expr e]) :
    Yields (dotTail k e) c fun e d => d.Read src lo [.expr e] := by
  simp only [dotTail, yields_bind, yields_look]
  split
  · next text token =>
    simp only [yields_bind, yields_accept, yields_extentFrom, yields_pure]
    exact (h.append (h.on.read.near.name token _)).extend rfl rfl trivial
  · simp only [yields_bind, yields_accept, yields_extentFrom, yields_pure]
    exact (h.accept _).cover rfl rfl trivial
  · exact yields_failure _ _

theorem yields_optionalTail (k : Context) (h : c.Read src lo [.expr e]) :
    Yields (optionalTail g k e) c fun e d => d.Read src lo [.expr e] := by
  simp only [optionalTail, yields_bind, yields_look]
  split
  · simp only [yields_bind, yields_accept, yields_extentFrom, yields_pure]
    exact (h.accept _).cover rfl rfl trivial
  · simp only [yields_bind, yields_accept, yields_extentFrom, yields_pure]
    exact (h.accept _).cover rfl rfl trivial
  · simp only [yields_bind, yields_guard, yields_accept, yields_extentFrom, yields_pure]
    intro _
    exact ((finds_enclosed hg _ _).skip (h.accept _)).mono fun _ d h => h.cover rfl rfl trivial
  · simp only [yields_bind, yields_guard, yields_accept, yields_extentFrom, yields_pure]
    intro _
    exact ((finds_arguments hg _).skip (h.accept _)).mono fun _ d h => h.cover rfl rfl trivial
  · exact yields_failure _ _

theorem yields_postfixIn (k : Context) (r : Reach) (n : List Symbol) (h : c.Read src lo [.expr e]) :
    Yields (postfixIn g k r n e) c fun e d => d.Read src lo [.expr e] := by
  induction n generalizing c e with
  | nil => exact yields_failure _ _
  | cons x n ih =>
    have stay : Yields (pure e) c fun e d => d.Read src lo [.expr e] := (yields_pure _ _ _).mpr h
    simp only [postfixIn, yields_bind, yields_look]
    split
    · refine Yields.ite ?_ stay
      simp only [yields_bind, yields_accept]
      exact (yields_dotTail k (h.accept _)).mono fun e d h => ih h
    · refine Yields.ite ?_ stay
      simp only [yields_bind, yields_accept]
      exact (yields_optionalTail hg k (h.accept _)).mono fun e d h => ih h
    · refine Yields.ite ?_ stay
      simp only [yields_bind, yields_guard, yields_accept, yields_extentFrom]
      intro _
      exact ((finds_enclosed hg _ _).after (h.accept _)).mono fun index d h => ih (h.extend rfl rfl trivial)
    · refine Yields.ite ?_ stay
      simp only [yields_bind, yields_guard, yields_accept, yields_extentFrom]
      intro _
      exact (yields_template hg _ (h.accept _)).mono fun _ d h => ih (h.cover rfl rfl trivial)
    · refine Yields.ite ?_ stay
      simp only [yields_bind, yields_accept, yields_extentFrom]
      exact ((finds_arguments hg _).after (h.accept _)).mono fun args d h => ih (h.extend rfl rfl trivial)
    · split
      · refine Yields.ite ?_ stay
        simp only [yields_bind, yields_accept, yields_extentFrom]
        exact ih ((h.accept _).extend rfl rfl trivial)
      · exact stay
    · exact stay

theorem yields_postfixFrom (k : Context) (r : Reach) (h : c.Read src lo [.expr e]) :
    Yields (postfixFrom g k r e) c fun e d => d.Read src lo [.expr e] := yields_postfixIn hg k r _ h

omit hg in
/-- Trying how the text reads otherwise does not move the cursor. -/
theorem yields_readsOtherwise (k : Context) (l : Lexeme) (e? : Option Surface.Expr) {post : Bool → Cursor → Prop}
    (h : ∀ b, post b c) : Yields (readsOtherwise g k l e?) c post := by
  have readsOn (e : Surface.Expr) : Yields (readsOn g k e) c post := by
    intro b d run
    rw [Grammar.readsOn] at run
    split at run
    all_goals
      cases run
      exact h _
  simp only [readsOtherwise, yields_bind, yields_look]
  split
  · exact Yields.ite ((yields_pure _ _ _).mpr (h _)) (readsOn _)
  · exact (yields_pure _ _ _).mpr (h _)

end Grammar

end IndexedLoop
