import IndexedLoop.Proofs.Extents.Commas

/-!
# Lists and functions in their source
-/

namespace IndexedLoop

open Surface Parse

namespace Surface

variable {src : List Symbol} {lo hi : Nat}

/-! ## Parameters -/

theorem Node.lies_piece {p : Piece} : (Node.piece p).Lies src lo hi ↔ p.extent.Lies src lo hi := by
  rw [Node.lies_iff]
  constructor
  · rintro ⟨extent, -, -⟩
    exact extent
  · intro extent
    exact ⟨extent, trivial, .nil extent.ordered⟩

/-- A name by itself lies where it lies as an expression. -/
theorem Node.Lies.name {n : Name} (h : (Node.expr (.name n)).Lies src lo hi) : (Node.name n).Lies src lo hi := by
  have extent : (Node.name n).extent.Lies src lo hi := h.extent
  exact (lined_singleton.mp h.parts).mono extent.lower extent.upper

/-- An expression that is taken for a parameter lies where it lay. -/
theorem Expr.lies_param {e : Expr} {b : Binding} (h : (Node.expr e).Lies src lo hi) (param : e.param? = some b) :
    b.node.Lies src lo hi := by
  have piece (construct : Construct) : (Binding.pattern ⟨e.extent, construct⟩).node.Lies src lo hi :=
    Node.lies_piece.mpr h.extent
  have pattern {construct : Construct} (found : (if e.isAssignable true = true then
      some (Binding.pattern ⟨e.extent, construct⟩) else none) = some b) : b.node.Lies src lo hi := by
    obtain ⟨-, rfl⟩ := Option.ite_none_right_eq_some.mp found |>.imp_right Option.some.inj
    exact piece construct
  cases e with
  | name n =>
    simp only [Expr.param?] at param
    split at param
    · exact pattern param
    · cases param
      exact h.name
  | assignment | spread | object | array | dot | subscript => exact pattern param
  | other u =>
    simp only [Expr.param?] at param
    split at param
    · exact pattern param
    · cases param
  | _ => cases param

theorem reduceOption_withoutTrailing {α : Type} (list : List (Option α)) :
    (withoutTrailing list).reduceOption = list.reduceOption := by
  fun_induction withoutTrailing list with
  | case1 => rfl
  | case2 => rfl
  | case3 x rest _ ih =>
    cases x with
    | none => exact ih
    | some a => exact congrArg (a :: ·) ih

/-- The entries of a list that are taken for parameters lie where they lay. -/
theorem lie_params {list : List (Option Expr)} {bindings : List Binding}
    (h : Node.AllLie src lo hi (list.reduceOption.map .expr)) (params : params? list = some bindings) :
    Node.AllLie src lo hi (bindings.map Binding.node) := by
  rw [← reduceOption_withoutTrailing] at h
  rw [params?] at params
  generalize withoutTrailing list = entries at h params
  induction entries generalizing lo bindings with
  | nil =>
    cases params
    exact h
  | cons entry entries ih =>
    rw [List.mapM_cons] at params
    obtain ⟨b, param, more⟩ := Option.bind_eq_some_iff.mp params
    obtain ⟨bs, others, all⟩ := Option.bind_eq_some_iff.mp more
    cases all
    cases entry with
    | none => cases param
    | some e =>
      obtain ⟨mid, first, rest⟩ := lined_cons.mp h
      exact .cons (e.lies_param first param) (ih rest others)

end Surface

namespace Grammar

variable {src : List Symbol} {lo : Nat} {c : Cursor} {xs : List Node} {g : Level} (hg : g.Finds src)
include hg

/-! ## Lists -/

theorem finds_item : Finds src (item g) fun e => [.expr e] := by
  intro c lo near
  simp only [item, yields_bind, yields_look]
  split
  · simp only [yields_bind, yields_accept, yields_extentFrom, yields_pure]
    refine ((hg.expr _).after (near.accept _)).mono fun inner d h => ?_
    exact near.node h rfl trivial
  · exact hg.expr _ near

theorem finds_entriesIn (close : String) (slot : Slot) (n : List Symbol) :
    Finds src (entriesIn g close slot n) fun list => list.reduceOption.map .expr := by
  induction n with
  | nil => exact fun _ _ _ => yields_failure _ _
  | cons x n ih =>
    intro c lo near
    simp only [entriesIn, yields_bind, yields_look]
    split
    · simp only [yields_bind, yields_accept, yields_pure]
      exact near.pass slot
    split
    · simp only [yields_bind, yields_accept, yields_pure]
      exact ih.after (near.pass _)
    · simp only [yields_bind]
      refine (finds_item hg near).mono fun e d h => ?_
      refine ((passes_tryPunct _ _).skip h).mono fun more d h => ?_
      split
      · simp only [yields_bind, yields_pure]
        exact ih.after h
      · simp only [yields_bind, yields_pure]
        exact (finds_expect _ _).skip h

theorem finds_entries (close : String) (slot : Slot) :
    Finds src (entries g close slot) fun list => list.reduceOption.map .expr :=
  fun _ _ near => finds_entriesIn hg close slot _ near

theorem finds_arguments (slot : Slot) : Finds src (arguments g slot) fun es => es.map .expr := by
  intro c lo near
  simp only [arguments, yields_bind, yields_pure]
  exact finds_entries hg _ _ near

theorem yields_moreIn (k : Context) (n : List Symbol) (h : c.Read src lo xs) :
    Yields (moreIn g k n) c fun es d => d.Read src lo (xs ++ es.map .expr) := by
  induction n generalizing c xs with
  | nil => exact yields_failure _ _
  | cons x n ih =>
    simp only [moreIn, yields_bind]
    refine ((passes_tryPunct _ _).skip h).mono fun more d h => ?_
    split
    · simp only [yields_bind, yields_pure]
      refine ((hg.expr _).after h).mono fun e d h => ?_
      refine (ih h).mono fun es d h => ?_
      rwa [List.append_assoc] at h
    · simpa using h

theorem yields_sequenceFrom {first : Surface.Expr} (k : Context) (h : c.Read src lo [.expr first])
    (single : first.isSequence = false) : Yields (sequenceFrom g k first) c fun e d => d.Read src lo [.expr e] := by
  simp only [sequenceFrom, yields_bind, yields_rounds]
  refine ((yields_moreIn hg k _ h).and (single_moreIn hg.single_expr k _)).mono ?_
  rintro more d ⟨h, others⟩
  split
  · simp only [yields_pure]
    exact h
  · next nonempty =>
    simp only [yields_bind, yields_extentFrom, yields_pure]
    have : 0 < more.length := List.length_pos_iff.mpr (by simpa using nonempty)
    exact h.extend rfl rfl ⟨Nat.succ_le_succ this, List.forall_mem_cons.mpr ⟨single, others⟩⟩

theorem finds_expressions (k : Context) : Finds src (expressions g k) fun e => [.expr e] := by
  intro c lo near
  simp only [expressions, yields_bind]
  refine ((hg.expr k near).and (hg.single_expr k c)).mono ?_
  rintro e d ⟨h, single⟩
  exact yields_sequenceFrom hg k h single

theorem finds_enclosed (close : String) (slot : Slot) : Finds src (enclosed g close slot) fun e => [.expr e] := by
  intro c lo near
  simp only [enclosed, yields_bind, yields_pure]
  exact (finds_expressions hg _ near).mono fun e d h => (finds_expect _ _).skip h

omit hg in
theorem yields_pathIn (n : List Symbol) (h : c.Read src lo xs) : Yields (pathIn n) c fun _ d => d.Read src lo xs := by
  induction n generalizing c with
  | nil => exact yields_failure _ _
  | cons x n ih =>
    simp only [pathIn, yields_bind]
    refine ((passes_tryPunct _ _).skip h).mono fun more d h => ?_
    split
    · simp only [yields_bind]
      exact ((finds_word _).skip h).mono fun _ d h => ih h
    · simpa using h

/-! ## Functions -/

omit hg in
theorem yields_takeParams (list : List (Option Surface.Expr)) (h : c.Read src lo xs) :
    Yields (takeParams list) c fun _ d => d.Read src lo xs := by
  simp only [takeParams, settle, lose, yields_bind, yields_modify, Cursor.read_losses, Cursor.read_pending]
  exact h

theorem finds_params : Finds src (params g) fun bindings => bindings.map Binding.node := by
  intro c lo near
  simp only [params, yields_bind]
  refine (finds_expect _ _ near).mono fun _ d h => ?_
  refine ((finds_entries hg _ _).after h).mono fun list d h => ?_
  split
  · next bindings found =>
    simp only [yields_bind, yields_pure]
    exact yields_takeParams list ⟨h.on, lie_params h.nodes found⟩
  · exact yields_failure _ _

theorem finds_statementsIn (slot : Bool → Slot) (isEmpty : Bool) (n : List Symbol) :
    Finds src (statementsIn g slot isEmpty n) fun ss => ss.map .stmt := by
  induction n generalizing isEmpty with
  | nil => exact fun _ _ _ => yields_failure _ _
  | cons x n ih =>
    intro c lo near
    simp only [statementsIn, yields_bind, yields_look]
    split
    · simp only [yields_bind, yields_accept, yields_pure]
      exact near.pass _
    · simp only [yields_bind, yields_pure]
      exact (hg.stmt _ near).mono fun s d h => (ih false).after h

theorem finds_blockWith (slot : Bool → Slot) (behind : Slot) :
    Finds src (blockWith g slot behind) fun b => [.block b] := by
  intro c lo near
  simp only [blockWith, yields_bind, yields_look, yields_guard, yields_accept, yields_rounds, yields_extentFrom,
    yields_pure]
  intro _
  refine ((finds_statementsIn hg slot true _).after (near.accept _)).mono fun body d h => ?_
  exact ((passes_tryInserted _).skip h).mono fun _ d h => near.node h rfl trivial

theorem finds_block (slot : Slot) : Finds src (block g slot) fun b => [.block b] := finds_blockWith hg _ _

theorem finds_functionTail (slot : Slot) : Finds src (functionTail g slot) Surface.Function.parts := by
  intro c lo near
  simp only [functionTail, yields_bind, yields_pure]
  exact (finds_params hg near).mono fun bindings d h => (finds_block hg slot).after h

omit hg in
/-- The parts of a function make up a function expression. -/
theorem read_functionExprOf {start : Place} (start_in : start.In src) {name : Option Name} {fn : Surface.Function}
    (flavour : Flavour) (h : c.Read src start.offset (name.toList.map .name ++ fn.parts)) :
    c.Read src start.offset [.expr (functionExprOf flavour name fn ⟨start, c.place⟩)] := by
  unfold functionExprOf
  split
  · exact h.clear.node start_in rfl trivial
  split
  · exact h.clear.node start_in rfl trivial
  · exact h.node start_in rfl trivial

theorem yields_functionExpr {start : Place} (start_in : start.In src) (k : Context) (isAsync : Bool)
    (h : c.Read src start.offset []) :
    Yields (functionExpr g k start isAsync) c fun e d => d.Read src start.offset [.expr e] := by
  simp only [functionExpr, yields_bind, yields_extentFrom, yields_pure]
  refine ((passes_tryPunct _ _).skip h).mono fun isGenerator d h => ?_
  refine (yields_tryAnyWord _ h).mono fun name d h => ?_
  exact ((finds_functionTail hg _).after h).mono fun fn d h => read_functionExprOf start_in _ h

end Grammar

end IndexedLoop
