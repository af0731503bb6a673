import IndexedLoop.Proofs.Extents.Markup
import IndexedLoop.Proofs.Extents.Member
import IndexedLoop.Proofs.Extents.Operand
import IndexedLoop.Grammar.Primary

/-!
# Primary expressions in their source
-/

namespace IndexedLoop.Grammar

open Surface Parse

variable {src : List Symbol} {lo : Nat} {c : Cursor} {xs : List Node} {start : Place} {g : Level} (hg : g.Finds src)
include hg

/-! ## Arrow functions -/

theorem finds_arrowBlock (k : Context) : Finds src (arrowBlock g k) fun _ => [] := by
  intro c lo near
  simp only [arrowBlock, yields_bind]
  refine (finds_block hg _ near).mono ?_
  rintro ⟨_, body⟩ d h
  simp only [yields_bind, yields_get]
  refine Yields.ite ?_ ((yields_pure _ _ _).mpr h.clear)
  simp only [yields_bind, yields_look, yields_guard]
  exact fun _ => h.clear

theorem finds_arrowBody (k : Context) : Finds src (arrowBody g k) fun _ => [] := by
  intro c lo near
  have value : Yields (do let _ ← g.braced k.right) c fun _ d => d.Read src lo [] := by
    simp only [yields_bind, yields_pure]
    exact (hg.braced _ near).mono fun _ d h => h.clear
  have block := finds_arrowBlock hg k near
  simp only [arrowBody]
  rw [yields_bind, yields_look]
  split
  · split
    · exact block
    · exact value
    · exact value.contest block
    · exact block.orElse value
  · simp only [yields_bind, yields_pure]
    exact (hg.expr _ near).mono fun _ d h => h.clear

theorem yields_arrowTail (start_in : start.In src) (k : Context) (h : c.Read src start.offset []) :
    Yields (arrowTail g k start) c fun e d => d.Read src start.offset [.expr e] := by
  simp only [arrowTail, yields_bind, yields_extentFrom, yields_pure]
  exact ((finds_arrowBody hg k).skip h).mono fun _ d h => h.node start_in rfl trivial

/-! ## Regular expressions -/

omit hg

theorem yields_regexFlagsIn (n : List Symbol) (h : c.Read src lo xs) :
    Yields (regexFlagsIn n) c fun _ d => d.Read src lo xs := by
  induction n generalizing c with
  | nil => exact yields_failure _ _
  | cons x n ih =>
    simp only [regexFlagsIn, yields_bind, yields_get]
    split
    · simp only [yields_set]
      exact h.advance _
    · simp only [yields_bind, yields_guard]
      intro _
      split
      · simp only [yields_bind, yields_set]
        exact ih (h.advance _)
      · exact yields_failure _ _

theorem yields_regex (near : c.Near src lo) (slot : Slot) :
    Yields (regex c.lexeme slot) c fun e d => d.Read src lo [.expr e] := by
  have start := near.on.lexeme.start
  simp only [regex]
  split
  · simp only [yields_bind, yields_set]
    have read (n : Nat) : ((c.lexeme.start.advance n).facing slot).Read src c.lexeme.start.offset [] :=
      (Cursor.read_facing _).mpr (start.read.advance n)
    refine (Yields.orElse (yields_regexFlagsIn _ (read _)) ((yields_pure _ _ _).mpr (read _))).mono fun _ d h => ?_
    simp only [yields_get, yields_pure]
    have literal : d.Read src lo [.literal ⟨⟨c.lexeme.start.place, d.place⟩, .regExp,
        c.lexeme.start.rest.take (c.lexeme.start.rest.length - d.rest.length)⟩] :=
      near.node h rfl ⟨start.spells h.on h.le, trivial⟩
    exact literal.wrap rfl rfl trivial
  · exact yields_failure _ _

/-! ## Parentheses -/

theorem reduceOption_of_mapM {α : Type} {list : List (Option α)} {as : List α} (h : list.mapM id = some as) :
    list.reduceOption = as := by
  induction list generalizing as with
  | nil =>
    cases h
    rfl
  | cons x list ih =>
    rw [List.mapM_cons] at h
    obtain ⟨a, rfl, more⟩ := Option.bind_eq_some_iff.mp h
    obtain ⟨rest, others, all⟩ := Option.bind_eq_some_iff.mp more
    cases all
    exact congrArg (a :: ·) (ih others)

/-- Expressions with commas between them make up one that ends with the last of them. -/
theorem lies_sequence {hi : Nat} {first last : Surface.Expr} {more : List Surface.Expr}
    (h : Node.AllLie src lo hi (.expr first :: (more ++ [last]).map .expr))
    (single : ∀ e ∈ first :: (more ++ [last]), e.isSequence = false) :
    (Node.expr (.sequence ⟨first.extent.start, last.extent.stop⟩ (first :: (more ++ [last])))).Lies src lo hi := by
  rw [List.map_append, ← List.cons_append] at h
  obtain ⟨mid, others, end_⟩ := lined_append.mp h
  have lies := lined_singleton.mp end_
  obtain ⟨m, begin_, between⟩ := lined_cons.mp others
  have ef : first.extent.Lies src lo m := begin_.extent
  have el : last.extent.Lies src mid hi := lies.extent
  have pair : 2 ≤ (first :: (more ++ [last])).length := by simp
  refine Node.lies_iff.mpr ⟨⟨ef.start, el.stop, ef.lower, ?_, el.upper⟩, ⟨pair, single⟩, ?_⟩
  · exact ef.ordered.trans (ef.upper.trans (between.le.trans (el.lower.trans el.ordered)))
  · refine .cons (begin_.tight.mono le_rfl ef.upper) ?_
    rw [List.map_append]
    exact between.append (lined_singleton.mpr lies.upper)

/-- A list in parentheses that is taken for an expression. -/
theorem read_parens (start_in : start.In src) {list : List (Option Surface.Expr)} {e : Surface.Expr}
    (h : c.Read src start.offset (list.reduceOption.map .expr))
    (single : ∀ e ∈ list.reduceOption, e.isSequence = false) (value : parens? ⟨start, c.place⟩ list = some e) :
    c.Read src start.offset [.expr e] := by
  unfold parens? at value
  split at value
  · next first more found =>
    rw [reduceOption_of_mapM found] at h single
    rw [Option.ite_none_left_eq_some] at value
    replace value := value.2
    rcases List.eq_nil_or_concat more with rfl | ⟨init, last, rfl⟩
    · cases value
      exact h.node start_in rfl trivial
    · rw [List.concat_eq_append] at h single value
      have nonempty : (init ++ [last]).isEmpty = false := by simp
      rw [nonempty, List.getLast?_concat] at value
      cases value
      have inner : c.Read src start.offset
          [.expr (.sequence ⟨first.extent.start, last.extent.stop⟩ (first :: (init ++ [last])))] :=
        ⟨h.on, lined_singleton.mpr (lies_sequence h.nodes single)⟩
      exact inner.node start_in rfl trivial
  · cases value

include hg

theorem yields_parens (start_in : start.In src) (k : Context) (h : c.Read src start.offset []) :
    Yields (parens g k start) c fun e d => d.Read src start.offset [.expr e] := by
  simp only [parens, yields_bind, yields_extentFrom, yields_look, yields_face]
  refine (((finds_entries hg _ _).after h).and (single_entries hg.single_expr _ _)).mono ?_
  rintro list d ⟨h, single⟩
  refine yields_readsOtherwise _ _ _ fun otherwise => ?_
  refine Yields.ite ?_ ?_
  · simp only [yields_bind, yields_accept]
    refine (yields_takeParams list (h.clear.accept _)).mono fun _ d h => ?_
    exact yields_arrowTail hg start_in k h
  · split
    · next e value =>
      simp only [yields_pure, Cursor.read_facing]
      exact read_parens start_in h single value
    · exact yields_failure _ _

/-! ## Words -/

variable {name : Name}

theorem yields_asyncList (k : Context) (h : c.Read src lo [.name name]) :
    Yields (asyncList g k name) c fun e d => d.Read src lo [.expr e] := by
  obtain ⟨start_in, lower, tight⟩ := h.tight
  have callee : c.Read src lo [.expr (.name name)] := h.wrap rfl rfl trivial
  simp only [asyncList, yields_bind, yields_extentFrom, yields_look, yields_face]
  refine ((finds_expect _ _ h.on.read.near)).mono fun _ d opened => ?_
  refine ((finds_entries hg _ _).after opened).mono fun list d args => ?_
  refine yields_readsOtherwise _ _ _ fun otherwise => ?_
  refine Yields.ite ?_ ?_
  · simp only [yields_bind, yields_accept]
    refine (yields_takeParams list ((tight.later args).clear.accept _)).mono fun _ d h => ?_
    exact (yields_arrowTail hg start_in k h).mono fun e d h => h.lower lower
  · simp only [yields_pure, Cursor.read_facing]
    exact (callee.append args).extend rfl rfl trivial

theorem yields_asyncTail (k : Context) (h : c.Read src lo [.name name]) :
    Yields (asyncTail g k name) c fun e d => d.Read src lo [.expr e] := by
  obtain ⟨start_in, lower, tight⟩ := h.tight
  have stay : Yields (pure (Surface.Expr.name name)) c fun e d => d.Read src lo [.expr e] :=
    (yields_pure _ _ _).mpr (h.wrap rfl rfl trivial)
  simp only [asyncTail, yields_bind, yields_look]
  split
  · simp only [yields_bind, yields_accept]
    exact (yields_arrowTail hg start_in k (tight.clear.accept _)).mono fun e d h => h.lower lower
  · exact yields_asyncList hg k h
  · refine Yields.ite stay ?_
    simp only [yields_bind, yields_accept]
    refine Yields.ite ?_ ?_
    · exact (yields_functionExpr hg start_in k true (tight.clear.accept _)).mono fun e d h => h.lower lower
    · simp only [yields_bind]
      refine ((finds_expect _ _).skip (tight.clear.accept _)).mono fun _ d h => ?_
      exact (yields_arrowTail hg start_in k h).mono fun e d h => h.lower lower
  · exact stay

omit hg in
theorem yields_importTail (k : Context) {extent : Extent}
    (h : c.Read src lo [.expr (.other (.itself extent .importKeyword))]) :
    Yields (importTail k extent) c fun e d => d.Read src lo [.expr e] := by
  simp only [importTail, yields_bind, yields_look]
  split
  · simp only [yields_bind, yields_accept, yields_extentFrom, yields_pure]
    exact ((finds_expectWord _ _).skip (h.accept _)).mono fun _ d h => h.cover rfl rfl trivial
  · simp only [yields_bind, yields_guard, yields_pure]
    exact fun _ => h

theorem yields_newTail (start_in : start.In src) (k : Context) (h : c.Read src start.offset []) :
    Yields (newTail g k start) c fun e d => d.Read src start.offset [.expr e] := by
  simp only [newTail, yields_bind]
  refine ((passes_tryPunct _ _).skip h).mono fun isTarget d h => ?_
  refine Yields.ite ?_ ?_
  · simp only [yields_bind, yields_extentFrom, yields_pure]
    exact ((finds_expectWord _ _).skip h).mono fun _ d h => h.node start_in rfl trivial
  simp only [yields_bind]
  refine ((hg.callee _).after h).mono fun callee d h => ?_
  refine ((passes_tryPunct _ _).skip h).mono fun isCall d h => ?_
  refine Yields.ite ?_ ?_
  · simp only [gain, yields_bind, yields_modify, yields_extentFrom, yields_pure]
    refine ((finds_arguments hg _).after ((Cursor.read_gains _).mpr h)).mono fun args d h => ?_
    exact h.node start_in rfl trivial
  · simp only [yields_bind, yields_extentFrom, yields_pure]
    exact h.node start_in rfl trivial

theorem yields_wordExpr (near : c.Near src lo) (k : Context) {text : String} (token : c.lexeme.token = .word text) :
    Yields (wordExpr g k c.lexeme text) c fun e d => d.Read src lo [.expr e] := by
  have lower {e : Surface.Expr} {d : Cursor} (h : d.Read src c.lexeme.start.place.offset [.expr e]) :
      d.Read src lo [.expr e] := h.lower near.lower
  have name (slot : Slot) := near.name token slot
  have literal {l : LiteralClass} (written : l.Written (Symbol.ofString text)) (slot : Slot) :
      (c.lexeme.stop.facing slot).Read src lo [.literal ⟨c.lexeme.extent, l, Symbol.ofString text⟩] :=
    near.literal (by rw [token]; exact fun _ h => ⟨h, h.symm ▸ written⟩) slot
  simp only [wordExpr]
  split
  · simp only [yields_bind, yields_accept]
    exact (yields_functionExpr hg near.start_in k false (near.accept _)).mono fun e d => lower
  · simp only [yields_bind, yields_accept]
    exact (yields_classExpr hg near.start_in k (near.accept _)).mono fun e d => lower
  · simp only [yields_bind, yields_accept]
    exact (yields_newTail hg near.start_in k (near.accept _)).mono fun e d => lower
  · simp only [yields_bind, yields_accept]
    exact yields_asyncTail hg k (name _)
  · simp only [yields_bind, yields_accept]
    exact yields_importTail k (near.leaf _ rfl rfl trivial)
  · exact yields_failure _ _
  · exact yields_failure _ _
  · exact yields_failure _ _
  · exact yields_failure _ _
  · exact yields_failure _ _
  · simp only [yields_bind, yields_accept, yields_pure]
    exact near.leaf _ rfl rfl trivial
  · simp only [yields_bind, yields_accept, yields_pure]
    exact near.leaf _ rfl rfl trivial
  · simp only [yields_bind, yields_accept, yields_pure]
    exact (literal (l := .boolean true) rfl _).wrap rfl rfl trivial
  · simp only [yields_bind, yields_accept, yields_pure]
    exact (literal (l := .boolean false) rfl _).wrap rfl rfl trivial
  · simp only [yields_bind, yields_accept, yields_pure]
    exact (literal (l := .null) rfl _).wrap rfl rfl trivial
  · simp only [yields_bind, yields_accept, yields_pure]
    exact (name _).wrap rfl rfl trivial
  · simp only [yields_bind, yields_accept]
    refine ((passes_tryPunct _ _).skip (name _)).mono fun isArrow d h => ?_
    obtain ⟨start_in, lower, tight⟩ := h.tight
    refine Yields.ite ?_ ((yields_pure _ _ _).mpr (h.wrap rfl rfl trivial))
    exact (yields_arrowTail hg start_in k tight.clear).mono fun e d h => h.lower lower

/-! ## Primary expressions -/

theorem yields_decoratedClass (start_in : start.In src) (k : Context) (near : c.Near src start.offset) :
    Yields (decoratedClass g k start) c fun e d => d.Read src start.offset [.expr e] := by
  simp only [decoratedClass, yields_bind]
  refine (passes_decorators hg near).mono fun _ d passed => ?_
  exact (finds_expectWord _ _ passed.1).mono fun _ d h => yields_classExpr hg start_in k h

theorem finds_primary (k : Context) : Finds src (primary g k) fun e => [.expr e] := by
  intro c lo near
  have lower {e : Surface.Expr} {d : Cursor} (h : d.Read src c.lexeme.start.place.offset [.expr e]) :
      d.Read src lo [.expr e] := h.lower near.lower
  simp only [primary, yields_bind, yields_look]
  split
  · next text token => exact yields_wordExpr hg near k token
  · next text token =>
    simp only [yields_bind, yields_accept, yields_pure]
    exact (near.literal (by rw [token]; exact fun _ h => ⟨h.1, h.1 ▸ h.2⟩) _).wrap rfl rfl trivial
  · next text token =>
    simp only [yields_bind, yields_accept, yields_pure]
    exact (near.literal (by rw [token]; exact fun _ h => ⟨h.1, h.1 ▸ h.2⟩) _).wrap rfl rfl trivial
  · simp only [yields_bind, yields_accept]
    exact (yields_parens hg near.start_in k (near.accept _)).mono fun e d => lower
  · next token =>
    simp only [yields_bind, yields_accept]
    have opens := near.on.faces_punct token (by decide)
    exact (yields_arrayTail hg near.start_in _ (near.accept _) rfl opens).mono fun e d => lower
  · simp only [yields_bind, yields_accept]
    exact (yields_objectTail hg near.start_in _ _ (near.accept _)).mono fun e d => lower
  · simp only [yields_bind, yields_accept, yields_extentFrom, yields_pure]
    exact (yields_template hg _ (near.accept _)).mono fun _ d h => near.node h rfl trivial
  · exact (yields_decoratedClass hg near.start_in k near.tight).mono fun e d => lower
  · refine Yields.ite (yields_regex near _) ?_
    refine Yields.ite ?_ (yields_failure _ _)
    simp only [yields_bind, yields_extentFrom, yields_pure]
    exact (finds_element hg _ near.tight).mono fun _ d h => near.node h rfl trivial
  · exact yields_failure _ _

end IndexedLoop.Grammar
