import IndexedLoop.Proofs.Skeleton
import IndexedLoop.Proofs.Subtrees

/-!
# Where the parts of a result come from

A walk leaves of the children of a subtree the children of what it leaves of the subtree, one by one
(`Subtree.children_walk`), where a statement counts with what its hook puts in its place. So every subtree of a
result was left of a subtree that the walk met (`Subtree.exists_met_of_within`). A conversion meets subtrees that it
has made itself, but no function and no loop inside of a loop is among them: these are all from the source
(`Subtree.Met.mem_events`).
-/

namespace IndexedLoop

variable {σ : Type}

namespace Subtree

/-! ## Subtrees and events -/

theorem visits_expr_ne_nil (e : Expr) : (Subtree.expr e).visits ≠ [] := by
  cases e <;> simp [visits]

theorem length_events_pos (e : Expr) : 0 < (Subtree.expr e).events.length := by
  rw [events_eq, List.length_append]
  have := List.length_pos_iff.mpr (visits_expr_ne_nil e)
  omega

theorem events_subset_of_mem_children {t c : Subtree} (hc : c ∈ t.children) : c.events ⊆ t.events := by
  intro event h
  rw [events_eq t]
  exact List.mem_append_right _ (List.mem_flatMap.mpr ⟨c, hc, h⟩)

theorem events_subset_of_within {t u : Subtree} (within : t.Within u) : u.events ⊆ t.events := by
  induction within with
  | refl => exact List.Subset.refl _
  | tail _ child ih => exact List.Subset.trans (events_subset_of_mem_children child) ih

/-- A visit meets less in a child. -/
theorem length_events_lt {t c : Subtree} (hc : c ∈ t.children) : c.events.length < t.events.length := by
  have sum : c.events.length ≤ (t.children.flatMap events).length := by
    obtain ⟨before, after, e⟩ := List.append_of_mem hc
    rw [e, List.flatMap_append, List.flatMap_cons, List.length_append, List.length_append]
    omega
  rw [events_eq t, List.length_append]
  by_cases own : t.visits = []
  · -- only a property is not met itself, and it has two children
    cases t with
    | property p =>
      have key := length_events_pos p.key
      have value := length_events_pos p.value
      simp only [children, List.mem_cons, List.not_mem_nil, or_false] at hc
      simp only [children, List.flatMap_cons, List.flatMap_nil, List.append_nil, List.length_append]
      rcases hc with rfl | rfl <;> omega
    | stmt s => cases s <;> simp [visits, visitsOfStmt] at own
    | expr e => exact absurd own (visits_expr_ne_nil e)
    | _ => simp [visits] at own
  · have := List.length_pos_iff.mpr own
    omega

theorem length_events_lt_of_within {t c u : Subtree} (hc : c ∈ t.children) (within : c.Within u) :
    u.events.length < t.events.length := by
  induction within with
  | refl => exact length_events_lt hc
  | tail _ child ih => exact Nat.lt_trans (length_events_lt child) ih

/-- What a visit meets is a subtree. -/
theorem exists_within_of_mem_events {event : Event} (t : Subtree) (h : event ∈ t.events) :
    ∃ u, t.Within u ∧ event ∈ u.visits := by
  have all := h
  rw [events_eq, List.mem_append, List.mem_flatMap] at all
  rcases all with own | ⟨c, hc, inner⟩
  · exact ⟨t, .refl, own⟩
  · obtain ⟨u, within, visit⟩ := exists_within_of_mem_events c inner
    exact ⟨u, .head hc within, visit⟩
termination_by t.events.length
decreasing_by exact length_events_lt hc

theorem mem_events_of_mem_visits {event : Event} {t : Subtree} (h : event ∈ t.visits) : event ∈ t.events := by
  rw [events_eq]
  exact List.mem_append_left _ h

/-! A statement, an expression, a function or a loop is met as what it is. -/

theorem eq_of_stmt_mem_visits {s : Stmt} {t : Subtree} (h : .stmt s ∈ t.visits) : t = .stmt s := by
  cases t with
  | stmt s => cases s <;> simp [visits, visitsOfStmt] at h <;> rw [h]
  | expr e => cases e <;> simp [visits] at h
  | _ => simp [visits] at h

theorem eq_of_expr_mem_visits {e : Expr} {t : Subtree} (h : .expr e ∈ t.visits) : t = .expr e := by
  cases t with
  | stmt s => cases s <;> simp [visits, visitsOfStmt] at h
  | expr e => cases e <;> simp [visits] at h <;> rw [h]
  | _ => simp [visits] at h

theorem eq_of_function_mem_visits {f : Function} {t : Subtree} (h : .function f ∈ t.visits) :
    t = .expr (.function f) := by
  cases t with
  | stmt s => cases s <;> simp [visits, visitsOfStmt] at h
  | expr e =>
    cases e <;> simp [visits] at h
    rw [h]
  | _ => simp [visits] at h

theorem eq_of_functionDecl_mem_visits {f : FunctionDecl} {t : Subtree} (h : .functionDecl f ∈ t.visits) :
    t = .stmt (.functionDecl f) := by
  cases t with
  | stmt s =>
    cases s <;> simp [visits, visitsOfStmt] at h
    rw [h]
  | expr e => cases e <;> simp [visits] at h
  | _ => simp [visits] at h

theorem eq_of_forLoop_mem_visits {l : ForLoop} {t : Subtree} (h : .forLoop l ∈ t.visits) :
    t = .stmt (.forLoop l) := by
  cases t with
  | stmt s =>
    cases s <;> simp [visits, visitsOfStmt] at h
    rw [h]
  | expr e => cases e <;> simp [visits] at h
  | _ => simp [visits] at h

/-! ## What a walk leaves of a subtree -/

/-- What a walk leaves of a subtree. -/
def walk (h : Hooks σ) : Subtree → σ → Subtree
  | .program p, st => .program ⟨p.span, (walkStmts h p.body st).1⟩
  | .stmt s, st => .stmt (walkStmt h s st).1
  | .block b, st => .block (walkBlock h b st).1
  | .declaration d, st => .declaration (walkDeclaration h d st).1
  | .declarator v, st => .declarator ⟨v.span, v.id, (walkOption h v.init st).1⟩
  | .expr e, st => .expr (walkExpr h e st).1
  | .property p, st =>
    let key := walkExpr h p.key st
    .property ⟨p.span, key.1, (walkExpr h p.value key.2).1⟩
  | .identifier id, _ => .identifier id

/-- A subtree with what the hook puts in its place, if it is a statement. -/
def change (h : Hooks σ) : Subtree → σ → Subtree
  | .stmt s, st => .stmt (h.stmt s st).1
  | t, _ => t

/-- A walk leaves the one of the other. -/
def Leaves (h : Hooks σ) (t t' : Subtree) : Prop := ∃ st, t.walk h st = t'

section Children

variable {h : Hooks σ}

theorem leaves_exprs (es : List Expr) (st : σ) :
    List.Forall₂ (Leaves h) (es.map .expr) ((walkExprs h es st).1.map .expr) := by
  induction es generalizing st with
  | nil => rw [walkExprs]; exact .nil
  | cons e rest ih => rw [walkExprs]; exact .cons ⟨st, rfl⟩ (ih _)

theorem leaves_elements (es : List (Option Expr)) (st : σ) :
    List.Forall₂ (Leaves h) (es.reduceOption.map .expr) ((walkElements h es st).1.reduceOption.map .expr) := by
  induction es generalizing st with
  | nil => rw [walkElements]; exact .nil
  | cons e rest ih =>
    cases e with
    | none =>
      rw [walkElements, List.reduceOption_cons_of_none, List.reduceOption_cons_of_none]
      exact ih st
    | some e =>
      rw [walkElements, List.reduceOption_cons_of_some, List.reduceOption_cons_of_some]
      exact .cons ⟨st, rfl⟩ (ih _)

theorem leaves_properties (ps : List Property) (st : σ) :
    List.Forall₂ (Leaves h) (ps.map .property) ((walkProperties h ps st).1.map .property) := by
  induction ps generalizing st with
  | nil => rw [walkProperties]; exact .nil
  | cons p rest ih =>
    obtain ⟨_, _, _⟩ := p
    rw [walkProperties]
    exact .cons ⟨st, rfl⟩ (ih _)

theorem leaves_stmts (ss : List Stmt) (st : σ) :
    List.Forall₂ (Leaves h) (ss.map .stmt) ((walkStmts h ss st).1.map .stmt) := by
  induction ss generalizing st with
  | nil => rw [walkStmts]; exact .nil
  | cons s rest ih => rw [walkStmts]; exact .cons ⟨st, rfl⟩ (ih _)

theorem leaves_declarators (ds : List Declarator) (st : σ) :
    List.Forall₂ (Leaves h) (ds.map .declarator) ((walkDeclarators h ds st).1.map .declarator) := by
  induction ds generalizing st with
  | nil => rw [walkDeclarators]; exact .nil
  | cons d rest ih =>
    obtain ⟨_, _, _⟩ := d
    rw [walkDeclarators]
    exact .cons ⟨st, rfl⟩ (ih _)

theorem leaves_option (e : Option Expr) (st : σ) :
    List.Forall₂ (Leaves h) (e.toList.map .expr) ((walkOption h e st).1.toList.map .expr) := by
  cases e with
  | none => rw [walkOption]; exact .nil
  | some e => rw [walkOption]; exact .cons ⟨st, rfl⟩ .nil

theorem leaves_forInit (init : Option ForInit) (st : σ) :
    List.Forall₂ (Leaves h) (init.toList.map ForInit.subtree)
      ((walkForInit h init st).1.toList.map ForInit.subtree) := by
  rcases init with - | (decl | e)
  · rw [walkForInit]; exact .nil
  · rw [walkForInit]; exact .cons ⟨st, rfl⟩ .nil
  · rw [walkForInit]; exact .cons ⟨st, rfl⟩ .nil

theorem leaves_branch (s : Option Stmt) (st : σ) :
    List.Forall₂ (Leaves h) (s.toList.map .stmt) ((walkBranch h s st).1.toList.map .stmt) := by
  cases s with
  | none => rw [walkBranch]; exact .nil
  | some s => rw [walkBranch]; exact .cons ⟨st, rfl⟩ .nil

theorem leaves_identifiers (ids : List Identifier) (st : σ) :
    List.Forall₂ (Leaves h) (ids.map .identifier) (ids.map .identifier) := by
  induction ids with
  | nil => exact .nil
  | cons id rest ih => exact .cons ⟨st, rfl⟩ ih

variable (idle : h.OnStatements)
include idle

theorem leaves_ofExpr (e : Expr) (st : σ) :
    List.Forall₂ (Leaves h) (ofExpr e) (ofExpr (walkExpr h e st).1) := by
  rw [walkExpr, idle.expr]
  cases e with
  | assignment | binary | member =>
    rw [descendExpr]
    exact .cons ⟨_, rfl⟩ (.cons ⟨_, rfl⟩ .nil)
  | unary | update =>
    rw [descendExpr]
    exact .cons ⟨_, rfl⟩ .nil
  | conditional =>
    rw [descendExpr]
    exact .cons ⟨_, rfl⟩ (.cons ⟨_, rfl⟩ (.cons ⟨_, rfl⟩ .nil))
  | sequence =>
    rw [descendExpr]
    exact leaves_exprs _ _
  | call | new =>
    rw [descendExpr]
    exact .cons ⟨_, rfl⟩ (leaves_exprs _ _)
  | object =>
    rw [descendExpr]
    exact leaves_properties _ _
  | array =>
    rw [descendExpr]
    exact leaves_elements _ _
  | function fn =>
    rw [descendExpr, walkFunction, idle.function]
    exact List.rel_append (List.rel_append (leaves_identifiers _ st) (leaves_exprs _ _)) (.cons ⟨_, rfl⟩ .nil)
  | identifier =>
    rw [descendExpr]
    exact .cons ⟨st, rfl⟩ .nil
  | this | literal | unknown =>
    rw [descendExpr]
    exact .nil

theorem leaves_ofStmt (s : Stmt) (st : σ) :
    List.Forall₂ (Leaves h) (ofStmt s) (ofStmt (descendStmt h s st).1) := by
  cases s with
  | declaration | block | throw | expression =>
    rw [descendStmt]
    exact .cons ⟨_, rfl⟩ .nil
  | functionDecl fn =>
    rw [descendStmt, idle.functionDecl]
    exact .cons ⟨st, rfl⟩ (List.rel_append (leaves_exprs _ _) (.cons ⟨_, rfl⟩ .nil))
  | ret =>
    rw [descendStmt]
    exact leaves_option _ _
  | forLoop l =>
    rw [descendStmt, idle.forLoop]
    exact List.rel_append (List.rel_append (List.rel_append (leaves_forInit _ _) (leaves_option _ _))
      (leaves_option _ _)) (.cons ⟨_, rfl⟩ .nil)
  | whileLoop l =>
    rw [descendStmt, idle.whileLoop]
    exact .cons ⟨_, rfl⟩ (.cons ⟨_, rfl⟩ .nil)
  | ifElse i =>
    rw [descendStmt, idle.ifElse]
    exact List.rel_append (.cons ⟨_, rfl⟩ (.cons ⟨_, rfl⟩ .nil)) (leaves_branch _ _)
  | brk | cont | empty | unknown =>
    rw [descendStmt]
    exact .nil

/-- A walk leaves of the children the children of what it leaves, one by one. -/
theorem children_walk (t : Subtree) (st : σ) :
    List.Forall₂ (Leaves h) (t.change h st).children (t.walk h st).children := by
  cases t with
  | program p => exact leaves_stmts _ _
  | stmt s =>
    rw [walk, walkStmt]
    exact leaves_ofStmt idle _ _
  | block b =>
    rw [walk, walkBlock, idle.block]
    exact leaves_stmts _ _
  | declaration d =>
    rw [walk, walkDeclaration, idle.declaration]
    exact leaves_declarators _ _
  | declarator v => exact .cons ⟨st, rfl⟩ (leaves_option _ _)
  | expr e => exact leaves_ofExpr idle e st
  | property p => exact .cons ⟨_, rfl⟩ (.cons ⟨_, rfl⟩ .nil)
  | identifier id => exact .nil

theorem exists_of_mem_children_walk {t c' : Subtree} {st : σ} (hc : c' ∈ (t.walk h st).children) :
    ∃ c ∈ (t.change h st).children, Leaves h c c' :=
  exists_of_mem_right (children_walk idle t st) hc

theorem exists_mem_children_walk {t c : Subtree} {st : σ} (hc : c ∈ (t.change h st).children) :
    ∃ c' ∈ (t.walk h st).children, Leaves h c c' :=
  exists_of_mem_left (children_walk idle t st) hc

end Children

/-! ## What a walk meets -/

/-- A walk through the tree meets the subtree, in the source or in what a hook has put in place of a statement. -/
def Met (h : Hooks σ) : Subtree → Subtree → Prop :=
  Relation.ReflTransGen fun t c => ∃ st, c ∈ (t.change h st).children

/-- Every subtree of a result is left of a subtree that the walk has met. -/
theorem exists_met_of_within {h : Hooks σ} (idle : h.OnStatements) {t u' : Subtree} {st : σ}
    (within : (t.walk h st).Within u') : ∃ u, Met h t u ∧ Leaves h u u' := by
  induction within with
  | refl => exact ⟨t, .refl, st, rfl⟩
  | tail _ child ih =>
    obtain ⟨u, met, at_, rfl⟩ := ih
    obtain ⟨c, hc, left⟩ := exists_of_mem_children_walk idle child
    exact ⟨c, met.tail ⟨at_, hc⟩, left⟩

end Subtree

/-! ## What a conversion has made -/

namespace Naming

variable (names : Naming) {s : Stmt} {each : ForEach} {k : Nat}

theorem walkStmt_of_none (none : ForEach.ofStmt? s = none) :
    walkStmt names.hooks s k = descendStmt names.hooks s k := by
  rw [walkStmt]
  simp only [hooks, convertStmt, none]

theorem walkStmt_of_some (some : ForEach.ofStmt? s = some each) :
    walkStmt names.hooks s k =
      descendStmt names.hooks (.forLoop (each.toLoop (names k).1 (names k).2)) (k + 1) := by
  rw [walkStmt]
  simp only [hooks, convertStmt, some]

end Naming

namespace Subtree.Leaves

theorem exists_function {h : Hooks σ} (idle : h.OnStatements) {u : Subtree} {f' : Function}
    (left : Leaves h u (.expr (.function f'))) :
    ∃ f st, u = .expr (.function f) ∧ (walkBlock h f.body st).1 = f'.body := by
  obtain ⟨st, same⟩ := left
  cases u with
  | expr e =>
    rw [walk, walkExpr, idle.expr] at same
    cases e with
    | function f =>
      rw [descendExpr, walkFunction, idle.function] at same
      cases same
      exact ⟨f, _, rfl, rfl⟩
    | _ => rw [descendExpr] at same; cases same
  | _ => cases same

variable {names : Naming} {u : Subtree}

theorem exists_functionDecl {f' : FunctionDecl} (left : Leaves names.hooks u (.stmt (.functionDecl f'))) :
    ∃ f k, u = .stmt (.functionDecl f) ∧ (walkBlock names.hooks f.body k).1 = f'.body := by
  obtain ⟨k, same⟩ := left
  cases u with
  | stmt s =>
    rw [walk] at same
    cases found : ForEach.ofStmt? s with
    | some each =>
      rw [names.walkStmt_of_some found, descendStmt] at same
      cases same
    | none =>
      rw [names.walkStmt_of_none found] at same
      cases s with
      | functionDecl f =>
        rw [descendStmt] at same
        cases same
        exact ⟨f, _, rfl, rfl⟩
      | _ => rw [descendStmt] at same; cases same
  | _ => cases same

end Subtree.Leaves

theorem names_walkDeclarators (h : Hooks σ) (ds : List Declarator) (st : σ) :
    (walkDeclarators h ds st).1.map (fun d => d.id.name) = ds.map fun d => d.id.name := by
  induction ds generalizing st with
  | nil => rw [walkDeclarators]
  | cons d rest ih =>
    obtain ⟨_, _, _⟩ := d
    rw [walkDeclarators, List.map_cons, ih, List.map_cons]

theorem declaredIn_walkForInit {h : Hooks σ} (idle : h.OnStatements) (init : Option ForInit) (st : σ) :
    declaredIn (walkForInit h init st).1 = declaredIn init := by
  rcases init with - | (decl | e)
  · rw [walkForInit]
  · rw [walkForInit, walkDeclaration, idle.declaration]
    exact names_walkDeclarators h decl.declarators st
  · rw [walkForInit]
    rfl

/-- A loop that is left was there, with the same variables, or it is made of a statement. -/
theorem Subtree.Leaves.loop_cases {names : Naming} {u : Subtree} {l' : ForLoop}
    (left : Leaves names.hooks u (.stmt (.forLoop l'))) :
    (∃ l, u = .stmt (.forLoop l) ∧ l'.declared = l.declared) ∨
      ∃ (s : Stmt) (each : ForEach) (index length : String) (k : Nat), each.Written s ∧
        (walkStmt names.hooks (each.toLoop index length).body k).1 = l'.body := by
  obtain ⟨k, same⟩ := left
  cases u with
  | stmt s =>
    rw [walk] at same
    cases found : ForEach.ofStmt? s with
    | some each =>
      rw [names.walkStmt_of_some found, descendStmt] at same
      cases same
      exact .inr ⟨s, each, _, _, _, ForEach.written_of_ofStmt? found, rfl⟩
    | none =>
      rw [names.walkStmt_of_none found] at same
      cases s with
      | forLoop l =>
        rw [descendStmt] at same
        cases same
        exact .inl ⟨l, rfl, declaredIn_walkForInit (Hooks.onStatements_idle _ _) l.init k⟩
      | _ => rw [descendStmt] at same; cases same
  | _ => cases same

theorem ForEach.flatMap_events_toLoop (each : ForEach) (index length : String) :
    (Subtree.stmt (.forLoop (each.toLoop index length))).children.flatMap Subtree.events =
      eventsOfForInit (each.toLoop index length).init ++ eventsOfOption (each.toLoop index length).test ++
        eventsOfOption (each.toLoop index length).update ++ (each.toLoop index length).body.events := by
  simp [Subtree.children, Subtree.ofStmt, toLoop, ForInit.subtree, Subtree.events, eventsOfForInit,
    eventsOfOption]

/-- The functions and loops in what a conversion meets are all from the source. -/
theorem Subtree.Met.mem_events {names : Naming} {t u : Subtree} (met : Met names.hooks t u) {event : Event}
    (kind : event.isFunctionOrLoop = true) (h : event ∈ u.events) : event ∈ t.events := by
  induction met with
  | refl => exact h
  | @tail v c _ child ih =>
    obtain ⟨k, hc⟩ := child
    apply ih
    cases v with
    | stmt s =>
      simp only [change, Naming.hooks, Naming.convertStmt] at hc
      split at hc
      · exact events_subset_of_mem_children hc h
      · rename_i each found
        have inside := List.mem_flatMap.mpr ⟨c, hc, h⟩
        rw [each.flatMap_events_toLoop] at inside
        exact (ForEach.written_of_ofStmt? found).mem_events (ForEach.mem_events_toLoop kind inside)
    | _ => exact events_subset_of_mem_children hc h

namespace Converter

theorem convert_eq_walk (c : Converter) (program : Program) :
    Subtree.program (c.convert program).1 = (Subtree.program program).walk (c.naming program).hooks 0 := by
  rw [convert_fst, Subtree.walk]

/-- What a visit of the result meets was left of something that the conversion has met. -/
theorem exists_met_of_mem_events {c : Converter} {program : Program} {event : Event}
    (h : event ∈ (c.convert program).1.events) :
    ∃ u u', Subtree.Met (c.naming program).hooks (.program program) u ∧
      Subtree.Leaves (c.naming program).hooks u u' ∧ event ∈ u'.visits := by
  obtain ⟨u', within, visit⟩ := Subtree.exists_within_of_mem_events (.program (c.convert program).1) h
  rw [convert_eq_walk] at within
  obtain ⟨u, met, left⟩ := Subtree.exists_met_of_within (Hooks.onStatements_idle _ _) within
  exact ⟨u, u', met, left, visit⟩

end Converter

end IndexedLoop
