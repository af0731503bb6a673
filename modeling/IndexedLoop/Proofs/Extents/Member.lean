import IndexedLoop.Proofs.Extents.Function
import IndexedLoop.Grammar.Member

/-!
# Objects and classes in their source

A modifier in front of a key, and a decorator, may be absent. Then the key is the next token of the member, and
the member starts with it.
-/

namespace IndexedLoop.Grammar

open Surface Parse

variable {src : List Symbol} {lo : Nat} {c : Cursor} {xs : List Node} {start : Place}

/-! ## Modifiers -/

theorem passes_tryModifier (w : String) (star : Bool) (site : Site) : Passes src (tryModifier w star site) :=
  passes_tryToken _ _

theorem passes_tryStaticGet : Passes src tryStaticGet := by
  intro c lo near
  simp only [tryStaticGet, yields_bind, yields_look]
  split
  · simp only [yields_bind, yields_set, yields_pure]
    exact ⟨(near.advance _ _).near, near.on.read.near.advance _ _⟩
  · simp only [yields_pure]
    exact ⟨near, near.on.read⟩

theorem passes_modifiers (site : Site) : Passes src (modifiers site) := by
  have behindAsync (isMethod : Bool) (site : Site) : Passes src (do
      if ← tryPunct "*" .plain then return (true, Site.object)
      else if ← tryModifier "get" false site then return (true, .object)
      else if ← tryModifier "set" false site then return (true, .object)
      else return (isMethod, site)) := by
    refine (passes_tryPunct _ _).bind fun isStar => ?_
    split
    · exact passes_pure _
    refine (passes_tryModifier _ _ _).bind fun isGet => ?_
    split
    · exact passes_pure _
    refine (passes_tryModifier _ _ _).bind fun isSet => ?_
    split <;> exact passes_pure _
  have behindStatic (isMethod : Bool) (site : Site) : Passes src (do
      let x ← if ← tryModifier "async" true site then pure (true, Site.object) else pure (isMethod, site)
      if ← tryPunct "*" .plain then return (true, Site.object)
      else if ← tryModifier "get" false x.2 then return (true, .object)
      else if ← tryModifier "set" false x.2 then return (true, .object)
      else return (x.1, x.2)) := by
    refine (passes_tryModifier _ _ _).bind fun isAsync => ?_
    dsimp only
    split
    · exact (passes_pure _).bind fun _ => behindAsync _ _
    · exact (passes_pure _).bind fun _ => behindAsync _ _
  unfold modifiers
  refine passes_tryStaticGet.bind fun isGet => (passes_tryModifier _ _ _).bind fun isStatic => ?_
  dsimp only
  split
  · exact (passes_pure _).bind fun _ => behindStatic _ _
  split
  · exact (passes_pure _).bind fun _ => behindStatic _ _
  · exact (passes_pure _).bind fun _ => behindStatic _ _

section

variable {g : Level} (hg : g.Finds src)
include hg

/-! ## Decorators and keys -/

theorem finds_decoratorTail : Finds src (decoratorTail g) fun _ => [] := by
  intro c lo near
  simp only [decoratorTail, yields_bind, yields_rounds]
  refine (finds_word _ near).mono fun _ d h => ?_
  refine (yields_pathIn _ h.clear).mono fun _ d h => ?_
  refine ((passes_tryPunct _ _).skip h).mono fun isCall d h => ?_
  split
  · simp only [yields_bind, yields_pure]
    exact (finds_arguments hg _).skip h
  · simp only [yields_pure]
    exact h

theorem passes_decorators : Passes src (decorators g) := by
  have decoratorsIn (n : List Symbol) : Passes src (decoratorsIn g n) := by
    induction n with
    | nil => exact fun _ _ _ => yields_failure _ _
    | cons x n ih =>
      refine (passes_tryPunct _ _).bind fun isDecorator => ?_
      split
      · exact (finds_decoratorTail hg).passes.bind fun _ => ih.bind fun _ => passes_pure _
      · exact passes_pure _
  exact fun _ _ near => decoratorsIn _ near

theorem finds_key (site : Site) : Finds src (key g site) fun k => [k.node] := by
  intro c lo near
  simp only [key, yields_bind, yields_look]
  split
  · next text token =>
    simp only [yields_bind, yields_accept, yields_pure]
    exact near.name token _
  · next text token =>
    simp only [yields_bind, yields_accept, yields_pure]
    exact near.literal (by rw [token]; exact fun _ h => ⟨h.1, h.1 ▸ h.2⟩) _
  · next text token =>
    simp only [yields_bind, yields_accept, yields_pure]
    exact near.literal (by rw [token]; exact fun _ h => ⟨h.1, h.1 ▸ h.2⟩) _
  · simp only [yields_bind, yields_accept, yields_pure]
    exact near.leaf _ rfl rfl trivial
  · simp only [yields_bind, yields_accept, yields_extentFrom, yields_pure]
    refine ((hg.expr _).skip (near.accept _)).mono fun _ d h => ?_
    exact ((finds_expect _ _).skip h).mono fun _ d h => near.node h rfl trivial
  · exact yields_failure _ _

/-! ## Object literals -/

theorem finds_methodTail : Finds src (methodTail g) fun _ => [] := by
  intro c lo near
  simp only [methodTail, yields_bind, yields_pure]
  exact (finds_functionTail hg _ near).mono fun _ d h => h.clear

theorem yields_defaultTail (start_in : start.In src) (site : Site) (near : c.Near src start.offset) :
    Yields (defaultTail g site start) c fun m d => d.Read src start.offset [.member m] := by
  simp only [defaultTail, notePending, yields_bind, yields_look, yields_guard, yields_modify, yields_extentFrom,
    yields_pure, Cursor.read_pending]
  refine (finds_expect _ _ near).mono fun _ d h => ?_
  exact ((hg.expr _).skip h).mono fun _ d h _ => h.node start_in rfl trivial

theorem yields_nestedDefault (start_in : start.In src) (site : Site) (near : c.Near src start.offset) :
    Yields (nestedDefault g site start) c fun m d => d.Read src start.offset [.member m] := by
  simp only [nestedDefault]
  split
  · simp only [yields_bind]
    refine (hg.braced _ near).mono fun e d h => ?_
    split
    · simp only [notePending, yields_bind, yields_look, yields_guard_prop, yields_modify, yields_extentFrom,
        yields_pure, Cursor.read_pending]
      exact fun _ _ => h.clear.node start_in rfl trivial
    · exact yields_failure _ _
  · simp only [settle, yields_bind, yields_guard, yields_modify, yields_face]
    refine (hg.callee _ near).mono fun e d h _ _ => ?_
    exact yields_defaultTail hg start_in site ((Cursor.read_pending _).mpr h |> (Cursor.read_facing _).mpr).near

theorem yields_memberTail (start_in : start.In src) (site : Site) (mustCall : Bool) {k : Key}
    (h : c.Read src start.offset [k.node]) :
    Yields (memberTail g site start mustCall k) c fun m d => d.Read src start.offset [.member m] := by
  simp only [memberTail, yields_bind, yields_look]
  split
  · simp only [yields_bind, yields_extentFrom, yields_pure]
    exact ((finds_methodTail hg).skip h.clear).mono fun _ d h => h.node start_in rfl trivial
  simp only [yields_bind, yields_guard]
  intro _
  split
  · simp only [yields_bind, yields_accept]
    refine ((finds_item hg).after (h.accept _)).mono fun value d h => ?_
    split
    · simp only [↓reduceIte, notePending, yields_bind, yields_modify, yields_extentFrom, yields_pure,
        Cursor.read_pending]
      exact h.node start_in rfl trivial
    · simp only [Bool.false_eq_true, ↓reduceIte, yields_bind, yields_extentFrom, yields_pure]
      exact h.node start_in rfl trivial
  · split
    · split
      · exact yields_defaultTail hg start_in site h.near
      · simp only [yields_bind, yields_guard, yields_pure]
        exact fun _ => h.wrap rfl rfl trivial
    · exact yields_failure _ _

theorem yields_bracketMember (start_in : start.In src) (site : Site) (near : c.Near src start.offset) :
    Yields (bracketMember g site start) c fun m d => d.Read src start.offset [.member m] := by
  simp only [bracketMember, yields_bind, yields_extentFrom, yields_look]
  refine (finds_expect _ _ near).mono fun _ d h => ?_
  refine ((finds_entries hg _ _).skip h).mono fun list d h => ?_
  split
  · simp only [settle, yields_bind, yields_modify]
    exact yields_defaultTail hg start_in site ((Cursor.read_pending _).mpr h).near
  · split
    · simp only [yields_bind, yields_guard, yields_face]
      intro _
      exact yields_memberTail hg start_in site false ((Cursor.read_facing _).mpr (h.node start_in rfl trivial))
    · exact yields_failure _ _

theorem yields_keyedMember (start_in : start.In src) (site : Site) (near : c.Near src start.offset) :
    Yields (keyedMember g site start) c fun m d => d.Read src start.offset [.member m] := by
  simp only [keyedMember, yields_bind]
  refine (passes_decorators hg near).mono fun decorated d passed => ?_
  refine (passes_modifiers _ passed.1).mono ?_
  rintro ⟨isMethod, site⟩ d passed
  exact (finds_key hg _ passed.1).mono fun k d h => yields_memberTail hg start_in _ _ h

theorem finds_member (site : Site) : Finds src (member g site) fun m => [.member m] := by
  intro c lo near
  simp only [member, yields_bind, yields_look]
  have lower {m : Member} {d : Cursor} (h : d.Read src c.lexeme.start.place.offset [.member m]) :
      d.Read src lo [.member m] := h.lower near.lower
  split
  · simp only [yields_bind, yields_accept, yields_extentFrom, yields_pure]
    exact ((hg.expr _).after (near.accept _)).mono fun inner d h => near.node h rfl trivial
  split
  · exact (yields_nestedDefault hg near.start_in site near.tight).mono fun m d => lower
  split
  · exact (yields_bracketMember hg near.start_in site near.tight).mono fun m d => lower
  · exact (yields_keyedMember hg near.start_in site near.tight).mono fun m d => lower

theorem finds_membersIn (site : Site) (slot : Slot) (n : List Symbol) :
    Finds src (membersIn g site slot n) fun ms => ms.map .member := by
  induction n generalizing site with
  | nil => exact fun _ _ _ => yields_failure _ _
  | cons x n ih =>
    intro c lo near
    simp only [membersIn, yields_bind, yields_look]
    split
    · simp only [yields_bind, yields_accept, yields_pure]
      exact near.pass slot
    split
    · simp only [yields_bind, yields_accept]
      exact (ih _).after (near.pass _)
    · simp only [yields_bind]
      refine (finds_member hg site near).mono fun m d h => ?_
      refine ((passes_tryPunct _ _).skip h).mono fun more d h => ?_
      split
      · simp only [yields_bind, yields_pure]
        exact (ih _).after h
      · simp only [yields_bind, yields_pure]
        exact (finds_expect _ _).skip h

theorem yields_objectTail (start_in : start.In src) (site : Site) (slot : Slot) (h : c.Read src start.offset []) :
    Yields (objectTail g site start slot) c fun e d => d.Read src start.offset [.expr e] := by
  simp only [objectTail, yields_bind, yields_rounds, yields_extentFrom, yields_pure]
  exact ((finds_membersIn hg site slot _).after h).mono fun members d h => h.node start_in rfl trivial

theorem finds_objectHead (k : Context) : Finds src (objectHead g k) fun e => [.expr e] := by
  intro c lo near
  simp only [objectHead, yields_bind, yields_look, yields_guard, yields_accept]
  intro _
  exact (yields_objectTail hg near.start_in _ _ (near.accept _)).mono fun e d h => h.lower near.lower

/-! ## Arrays -/

omit hg in
theorem withoutTrailing_cons {α : Type} (x : Option α) {list : List (Option α)} (h : list ≠ []) :
    withoutTrailing (x :: list) = x :: withoutTrailing list := by
  rw [withoutTrailing]
  exact fun _ last => absurd last h

theorem spans_item : Spans (item g) := by
  intro c
  simp only [item, yields_bind, yields_look]
  refine Yields.ite ?_ (hg.spans_expr _ c)
  simp [Surface.Expr.extent]

/-- The entries of an array are laid out in the source up to the closing bracket. -/
theorem yields_entriesIn_laid (slot : Slot) (n : List Symbol) (on : c.On src) (plain : c.slot = .plain) :
    Yields (entriesIn g "]" slot n) c fun list d => list ≠ [] ∧ ∃ l : Listing Surface.Expr,
      l.Laid (Surface.Expr.Between src) false c.rest (.char ']' :: d.rest) ∧ withoutTrailing list = l.entries := by
  have close {c : Cursor} (h : c.lexeme.isPunct "]" = true) :
      Lexical.LeadsTo c.rest (.char ']' :: c.lexeme.stop.rest) := Cursor.leadsTo_of_isPunct h (by decide)
  have comma {c : Cursor} (h : c.lexeme.isPunct "," = true) :
      Lexical.LeadsTo c.rest (.char ',' :: c.lexeme.stop.rest) := Cursor.leadsTo_of_isPunct h (by decide)
  induction n generalizing c with
  | nil => exact yields_failure _ _
  | cons x n ih =>
    have next {c : Cursor} (on : c.On src) := @ih (c.lexeme.stop.facing .plain) on.lexeme.stop rfl
    simp only [entriesIn, yields_bind, yields_look]
    split
    · next h =>
      simp only [yields_bind, yields_accept, yields_pure]
      exact ⟨by simp, [], .nil (close h), rfl⟩
    split
    · next h =>
      simp only [yields_bind, yields_accept, yields_pure]
      refine (next on).mono ?_
      rintro list d ⟨more, l, laid, entries⟩
      refine ⟨by simp, .comma :: l, .comma (comma h) laid, ?_⟩
      rw [withoutTrailing_cons _ more, entries]
      rfl
    · simp only [yields_bind]
      refine ((finds_item hg on.read.near).and (spans_item hg c)).mono ?_
      rintro e d ⟨h, spans⟩
      have first : Lexical.LeadsTo c.rest c.lexeme.start.rest := Cursor.leadsTo_lexemeIn _ (.inl (plain ▸ rfl))
      have here : e.Between src c.lexeme.start.rest d.rest := by
        rw [Surface.Expr.Between, spans]
        exact ⟨on.lexeme.start, h.on⟩
      simp only [yields_tryPunct]
      split
      · next another =>
        simp only [↓reduceIte, yields_bind, yields_pure]
        refine (next h.on).mono ?_
        rintro list d' ⟨more, l, laid, entries⟩
        refine ⟨by simp, .element e :: .comma :: l, .element first here (.comma (comma another) laid), ?_⟩
        rw [withoutTrailing_cons _ more, entries]
        rfl
      · simp only [Bool.false_eq_true, ↓reduceIte, yields_bind, yields_expect, yields_pure]
        intro closes
        exact ⟨by simp, [.element e], .element first here (.nil (close closes)), rfl⟩

/-- An array is written in the source with its commas and elements. -/
theorem yields_arrayTail (start_in : start.In src) (slot : Slot) (h : c.Read src start.offset [])
    (plain : c.slot = .plain) (opens : start.Faces src (.char '[' :: c.rest)) :
    Yields (arrayTail g start slot) c fun e d => d.Read src start.offset [.expr e] := by
  simp only [arrayTail, yields_bind, yields_extentFrom, yields_pure]
  refine (((finds_entries hg _ slot).after h).and
    ((yields_entriesIn_laid hg slot _ h.on plain).and (single_entries hg.single_expr _ slot))).mono ?_
  rintro list d ⟨h, ⟨-, l, laid, entries⟩, single⟩
  rw [← reduceOption_withoutTrailing] at single
  refine Cursor.Read.node ?_ start_in rfl ⟨⟨l, ⟨c.rest, d.rest, opens, h.on, laid⟩, entries⟩, single⟩
  simpa only [Node.parts, Surface.Expr.parts, reduceOption_withoutTrailing, List.nil_append] using h

/-! ## Classes -/

theorem finds_classMember : Finds src (classMember g) fun _ => [] := by
  intro c lo near
  simp only [classMember, yields_bind]
  refine (passes_decorators hg near).mono fun _ d passed => ?_
  refine (passes_modifiers _ passed.1).mono ?_
  rintro ⟨isMethod, site⟩ d passed
  simp only [yields_look]
  refine (finds_key hg _ passed.1).mono fun _ d h => ?_
  split
  · exact (finds_methodTail hg).skip h.clear
  · simp only [yields_bind]
    refine ((passes_tryPunct _ _).skip h.clear).mono fun isInitialized d h => ?_
    split
    · simp only [yields_bind]
      exact ((hg.expr _).skip h).mono fun _ d h => finds_semicolon.skip h
    · exact finds_semicolon.skip h

theorem finds_staticBlock : Finds src (staticBlock g) fun _ => [] := by
  intro c lo near
  simp only [staticBlock, yields_bind, yields_pure]
  refine (finds_expectWord _ _ near).mono fun _ d h => ?_
  refine ((passes_tryInserted _).skip h).mono fun _ d h => ?_
  exact (finds_block hg _).skip h

theorem finds_classBodyIn (slot : Slot) (n : List Symbol) : Finds src (classBodyIn g slot n) fun _ => [] := by
  induction n with
  | nil => exact fun _ _ _ => yields_failure _ _
  | cons x n ih =>
    intro c lo near
    simp only [classBodyIn, yields_bind, yields_look]
    split
    · simp only [yields_accept]
      exact near.pass slot
    split
    · simp only [yields_bind, yields_accept]
      exact ih.after (near.pass _)
    refine Yields.ite ?_ ?_
    · simp only [yields_bind]
      exact (finds_staticBlock hg near).mono fun _ d h => ih.skip h
    · simp only [yields_bind]
      exact (finds_classMember hg near).mono fun _ d h => ih.skip h

theorem yields_classTail (slot : Slot) (h : c.Read src lo []) :
    Yields (classTail g slot) c fun _ d => d.Read src lo [] := by
  have body {d : Cursor} (h : d.Read src lo []) :
      Yields (expect "\x7b" .plain) d fun _ d => Yields (rounds (classBodyIn g slot)) d fun _ d => d.Read src lo [] :=
    ((finds_expect _ _).skip h).mono fun _ d h => (finds_classBodyIn hg slot _).skip h
  simp only [classTail, yields_bind]
  refine ((passes_tryWord _ _).skip h).mono fun isDerived d h => ?_
  split
  · simp only [yields_bind]
    exact ((hg.expr _).skip h).mono fun _ d h => body h
  · simp only [yields_bind]
    exact body h

theorem yields_classExpr (start_in : start.In src) (k : Context) (h : c.Read src start.offset []) :
    Yields (classExpr g k start) c fun e d => d.Read src start.offset [.expr e] := by
  have tail {d : Cursor} (h : d.Read src start.offset []) : Yields (classTail g k.operand) d fun _ d =>
      d.Read src start.offset [.expr (.other (.itself ⟨start, d.place⟩ .classExpression))] :=
    (yields_classTail hg _ h).mono fun _ d h => h.node start_in rfl trivial
  simp only [classExpr, yields_bind, yields_look]
  split
  · simp only [yields_bind, yields_extentFrom, yields_pure]
    exact tail h
  · simp only [yields_bind, yields_extentFrom, yields_pure]
    exact (yields_tryAnyWord _ h).mono fun _ d h => tail h.clear

end

end IndexedLoop.Grammar
