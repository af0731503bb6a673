import IndexedLoop.Proofs.Origins

/-!
# The parameters of a converted function

A conversion makes variables of the parameters of a function: the body of the loop declares them
(`ForEach.Binds`). They are variables of the function around it then, so what else goes by their names matters. A
conversion does not look at it, and it can catch a name (`Converter.caught_exampleShadow`). But it brings no parameter
out of the body of its loop: there, a name of a parameter occurs only where it occurred outside of the function
before, or it is one of the names that every loop has (`Converter.parameters_stay_in_their_loop`).
-/

namespace IndexedLoop

/-! ## Paths to names -/

/-- A name is reached from a subtree in steps. -/
inductive Subtree.Leads (step : Subtree → Subtree → Prop) (x : String) : Subtree → Prop
  | here {id : Identifier} (name : id.name = x) : Leads step x (.identifier id)
  | step {t c : Subtree} (first : step t c) (rest : Leads step x c) : Leads step x t

theorem Subtree.Leads.mono {R S : Subtree → Subtree → Prop} (le : ∀ t c, R t c → S t c) {x : String} {t : Subtree}
    (leads : Leads R x t) : Leads S x t := by
  induction leads with
  | here name => exact .here name
  | step first _ ih => exact .step (le _ _ first) ih

/-- The variable, if the statement declares one with a value by `var`. -/
def Stmt.bound? : Stmt → Option String
  | .declaration ⟨_, .var, [⟨_, id, some _⟩]⟩ => some id.name
  | _ => none

namespace ForEach

/-- The block is the body of a loop for these parts: it stands where the body of the function stood, and its first
statements declare the parameters. -/
structure Binds (each : ForEach) (b : Block) : Prop where
  span : b.span = each.body.span
  params : (each.params.map fun p => some p.name) <+: b.body.map Stmt.bound?

/-- A step from a subtree to one right below it, but not into the function: from the statement with these parts it
goes to the receiver only. -/
def Outside (each : ForEach) (s : Stmt) (t c : Subtree) : Prop :=
  (t = .stmt s ∧ c = .expr each.receiver) ∨ (t ≠ .stmt s ∧ c ∈ t.children)

/-- A step from a subtree to one right below it, but not into the body of a loop for these parts. -/
def Beyond (each : ForEach) (t c : Subtree) : Prop :=
  (∀ b, t = .stmt (.block b) → ¬ each.Binds b) ∧ c ∈ t.children

/-- A step that goes neither into the function nor into the body of a loop. -/
def Around (each : ForEach) (s : Stmt) (t c : Subtree) : Prop :=
  each.Outside s t c ∧ ∀ b, t = .stmt (.block b) → ¬ each.Binds b

/-! ## The body of a loop -/

/-- The block of the loop. -/
def loopBody (each : ForEach) (index : String) : Block :=
  ⟨each.body.span, bindings each.receiver index 0 each.params ++ each.body.body⟩

theorem bound?_bindings (receiver : Expr) (index : String) (k : Nat) (ids : List Identifier) :
    (bindings receiver index k ids).map Stmt.bound? = ids.map fun p => some p.name := by
  induction ids generalizing k with
  | nil => rfl
  | cons id rest ih =>
    rw [bindings, List.map_cons, ih, List.map_cons]
    rfl

theorem binds_loopBody (each : ForEach) (index : String) : each.Binds (each.loopBody index) where
  span := rfl
  params := by
    rw [loopBody, List.map_append, bound?_bindings]
    exact List.prefix_append ..

variable {names : Naming}

theorem bound?_walkStmt {s : Stmt} {x : String} (h : s.bound? = some x) (k : Nat) :
    (walkStmt names.hooks s k).1.bound? = some x := by
  have idle : names.hooks.OnStatements := Hooks.onStatements_idle _ _
  unfold Stmt.bound? at h
  split at h
  · rw [names.walkStmt_of_none rfl, descendStmt, walkDeclaration, idle.declaration, walkDeclarators, walkOption,
      walkDeclarators]
    exact h
  · cases h

theorem params_walkStmts {params : List Identifier} {ss : List Stmt}
    (h : (params.map fun p => some p.name) <+: ss.map Stmt.bound?) (k : Nat) :
    (params.map fun p => some p.name) <+: (walkStmts names.hooks ss k).1.map Stmt.bound? := by
  induction params generalizing ss k with
  | nil => exact List.nil_prefix
  | cons p params ih =>
    cases ss with
    | nil => simp at h
    | cons s rest =>
      rw [List.map_cons, List.map_cons, List.cons_prefix_cons] at h
      rw [walkStmts, List.map_cons, List.map_cons, List.cons_prefix_cons]
      exact ⟨(bound?_walkStmt h.1.symm k).symm, ih h.2 _⟩

/-- A walk leaves the declarations of the parameters. -/
theorem Binds.walkBlock {each : ForEach} {b : Block} (binds : each.Binds b) (k : Nat) :
    each.Binds (walkBlock names.hooks b k).1 := by
  rw [IndexedLoop.walkBlock]
  exact ⟨binds.span, params_walkStmts binds.params k⟩

end ForEach

/-! ## Into the loop and back -/

namespace Subtree.Leads

variable {each : ForEach} {s : Stmt} {x : String}

theorem exists_child {t : Subtree} (leads : Leads (each.Around s) x t) (other : t ≠ .stmt s)
    (inner : ∀ id, t ≠ .identifier id) : ∃ c ∈ t.children, Leads (each.Around s) x c := by
  cases leads with
  | here name => exact absurd rfl (inner _)
  | step first rest =>
    rcases first.1 with ⟨same, -⟩ | ⟨-, child⟩
    · exact absurd same other
    · exact ⟨_, child, rest⟩

theorem name_eq {id : Identifier} (leads : Leads (each.Around s) x (.identifier id)) : id.name = x := by
  cases leads with
  | here name => exact name
  | step first rest =>
    rcases first.1 with ⟨same, -⟩ | ⟨-, child⟩
    · cases same
    · cases child

theorem of_expr {e : Expr} (leads : Leads (each.Around s) x (.expr e)) :
    ∃ c ∈ ofExpr e, Leads (each.Around s) x c :=
  leads.exists_child (by simp) (by simp)

theorem of_ident {y : String} (leads : Leads (each.Around s) x (.expr (Expr.ident y))) : y = x := by
  obtain ⟨c, hc, leads⟩ := leads.of_expr
  obtain rfl := List.mem_singleton.mp hc
  exact leads.name_eq

theorem of_variableOf {y : String} {init : Expr}
    (leads : Leads (each.Around s) x (.declarator (ForEach.variableOf y init))) :
    y = x ∨ Leads (each.Around s) x (.expr init) := by
  obtain ⟨c, hc, leads⟩ := leads.exists_child (by simp) (by simp)
  simp only [children, ForEach.variableOf, Option.toList_some, List.map_cons, List.map_nil, List.mem_cons,
    List.not_mem_nil, or_false] at hc
  rcases hc with rfl | rfl
  · exact .inl leads.name_eq
  · exact .inr leads

theorem of_property {object property : Expr} {access : Access}
    (leads : Leads (each.Around s) x (.expr (ForEach.property object property access))) :
    Leads (each.Around s) x (.expr object) ∨ Leads (each.Around s) x (.expr property) := by
  obtain ⟨c, hc, leads⟩ := leads.of_expr
  simp only [ForEach.property, ofExpr, List.mem_cons, List.not_mem_nil, or_false] at hc
  rcases hc with rfl | rfl
  · exact .inl leads
  · exact .inr leads

theorem of_argument {receiver : Expr} {index : String} {k : Nat}
    (leads : Leads (each.Around s) x (.expr (ForEach.argument receiver index k))) :
    Leads (each.Around s) x (.expr receiver) ∨ index = x := by
  unfold ForEach.argument at leads
  split at leads
  · exact leads.of_property.imp_right of_ident
  · exact .inr leads.of_ident
  · exact .inl leads
  · obtain ⟨c, hc, leads⟩ := leads.of_expr
    obtain rfl := List.mem_singleton.mp hc
    obtain ⟨c, hc, -⟩ := leads.of_expr
    cases hc

theorem of_bindings {receiver : Expr} {index : String} {k : Nat} {ids : List Identifier} {binding : Stmt}
    (written : each.Written s) (mem : binding ∈ ForEach.bindings receiver index k ids)
    (leads : Leads (each.Around s) x (.stmt binding)) :
    (∃ p ∈ ids, p.name = x) ∨ Leads (each.Around s) x (.expr receiver) ∨ index = x := by
  induction ids generalizing k with
  | nil => cases mem
  | cons id rest ih =>
    rw [ForEach.bindings, List.mem_cons] at mem
    rcases mem with rfl | later
    · have other : Subtree.stmt (.declaration (ForEach.varOf [ForEach.variableOf id.name
          (ForEach.argument receiver index k)])) ≠ .stmt s := by
        rintro same
        cases written
        cases same
      obtain ⟨c, hc, leads⟩ := leads.exists_child other (by simp)
      obtain rfl := List.mem_singleton.mp hc
      obtain ⟨c, hc, leads⟩ := leads.exists_child (by simp) (by simp)
      obtain rfl := List.mem_singleton.mp hc
      rcases leads.of_variableOf with same | leads
      · exact .inl ⟨id, List.mem_cons_self .., same⟩
      · exact .inr leads.of_argument
    · rcases ih later with ⟨p, mem, same⟩ | rest
      · exact .inl ⟨p, List.mem_cons_of_mem _ mem, same⟩
      · exact .inr rest

/-- A name that is reached in a loop is reached from the receiver, it is one of those that every loop has, or it is
reached in the body of the loop, from a parameter or from a statement. -/
theorem of_toLoop {other : ForEach} {index length : String} {c : Subtree} (written : each.Written s)
    (hc : c ∈ (Subtree.stmt (.forLoop (other.toLoop index length))).children) (leads : Leads (each.Around s) x c) :
    Leads (each.Around s) x (.expr other.receiver) ∨ (index = x ∨ length = x ∨ "length" = x) ∨
      ¬ each.Binds (other.loopBody index) ∧
        ((∃ p ∈ other.params, p.name = x) ∨ ∃ b ∈ other.body.body, Leads (each.Around s) x (.stmt b)) := by
  simp only [children, ofStmt, ForEach.toLoop, Option.toList_some, List.map_cons, List.map_nil, ForInit.subtree,
    List.cons_append, List.nil_append, List.mem_cons, List.not_mem_nil, or_false] at hc
  rcases hc with rfl | rfl | rfl | rfl
  · -- the variables of the loop
    obtain ⟨c, hc, leads⟩ := leads.exists_child (by simp) (by simp)
    simp only [children, ForEach.varOf, List.map_cons, List.map_nil, List.mem_cons, List.not_mem_nil, or_false] at hc
    rcases hc with rfl | rfl
    · rcases leads.of_variableOf with same | leads
      · exact .inr (.inl (.inl same))
      · obtain ⟨c, hc, -⟩ := leads.of_expr
        cases hc
    · rcases leads.of_variableOf with same | leads
      · exact .inr (.inl (.inr (.inl same)))
      · rcases leads.of_property with leads | leads
        · exact .inl leads
        · exact .inr (.inl (.inr (.inr leads.of_ident)))
  · -- the test
    obtain ⟨c, hc, leads⟩ := leads.of_expr
    simp only [ofExpr, List.mem_cons, List.not_mem_nil, or_false] at hc
    rcases hc with rfl | rfl
    · exact .inr (.inl (.inl leads.of_ident))
    · exact .inr (.inl (.inr (.inl leads.of_ident)))
  · -- the update
    obtain ⟨c, hc, leads⟩ := leads.of_expr
    obtain rfl := List.mem_singleton.mp hc
    exact .inr (.inl (.inl leads.of_ident))
  · -- the body
    cases leads with
    | step first rest =>
      have uncut := first.2 _ rfl
      rcases first.1 with ⟨same, -⟩ | ⟨-, child⟩
      · cases written
        cases same
      obtain rfl := List.mem_singleton.mp child
      obtain ⟨c, hc, leads⟩ := rest.exists_child (by simp) (by simp)
      obtain ⟨b, mem, rfl⟩ := List.mem_map.mp hc
      rcases List.mem_append.mp mem with binding | mem
      · rcases leads.of_bindings written binding with param | receiver | same
        · exact .inr (.inr ⟨uncut, .inl param⟩)
        · exact .inl receiver
        · exact .inr (.inl (.inl same))
      · exact .inr (.inr ⟨uncut, .inr ⟨b, mem, leads⟩⟩)

/-- Below anything but a statement, all steps are allowed. -/
theorem of_child {t c : Subtree} (inner : ∀ s, t ≠ .stmt s) (child : c ∈ t.children)
    (leads : Leads (each.Around s) x c) : Leads (each.Around s) x t :=
  .step ⟨.inr ⟨inner s, child⟩, fun _ same => absurd same (inner _)⟩ leads

/-- What is reached from the receiver, the parameters or the statements of the function of another statement is
reached from that statement. -/
theorem of_written {s' : Stmt} {other : ForEach} (written : other.Written s') (ne : s' ≠ s)
    (h : Leads (each.Around s) x (.expr other.receiver) ∨ (∃ p ∈ other.params, p.name = x) ∨
      ∃ b ∈ other.body.body, Leads (each.Around s) x (.stmt b)) : Leads (each.Around s) x (.stmt s') := by
  cases written with
  | @mk span callSpan memberSpan fnSpan id receiver property access params body rest name this stays =>
    have top {c : Subtree} (child : c ∈ children (.expr (.call callSpan (.member memberSpan receiver property access)
        (.function ⟨fnSpan, id, params.map .identifier, body⟩ :: rest)))) (leads : Leads (each.Around s) x c) :
        Leads (each.Around s) x (.stmt (.expression span (.call callSpan (.member memberSpan receiver property access)
          (.function ⟨fnSpan, id, params.map .identifier, body⟩ :: rest)))) :=
      .step ⟨.inr ⟨fun same => ne (by cases same; rfl), List.mem_singleton_self _⟩, by simp⟩
        (leads.of_child (by simp) child)
    rcases h with leads | ⟨p, mem, same⟩ | ⟨b, mem, leads⟩
    · exact top (List.mem_cons_self ..) (leads.of_child (by simp) (List.mem_cons_self ..))
    · refine top (List.mem_cons_of_mem _ (List.mem_cons_self ..)) ?_
      refine of_child (c := .expr (.identifier p)) (by simp) ?_ ?_
      · simp [children, ofExpr, mem]
      · exact (Leads.here same).of_child (by simp) (List.mem_singleton_self _)
    · refine top (List.mem_cons_of_mem _ (List.mem_cons_self ..)) ?_
      refine of_child (c := .block body) (by simp) (by simp [children, ofExpr]) ?_
      exact leads.of_child (by simp) (List.mem_map_of_mem mem)

end Subtree.Leads

/-- A name that stands in the loops that are made: the property of the length, or a variable of a loop. -/
def Naming.OfLoop (names : Naming) (x : String) : Prop := x = "length" ∨ ∃ k, (names k).1 = x ∨ (names k).2 = x

section Walk

variable {names : Naming} {each : ForEach} {s : Stmt} {x : String}

/-- If a walk leaves no body of a loop, then there was none. -/
theorem not_binds_of_walk {t : Subtree} {k : Nat}
    (uncut : ∀ b, t.walk names.hooks k = .stmt (.block b) → ¬ each.Binds b) :
    ∀ b, t = .stmt (.block b) → ¬ each.Binds b := by
  rintro b rfl binds
  refine uncut (walkBlock names.hooks b k).1 ?_ (binds.walkBlock k)
  rw [Subtree.walk, names.walkStmt_of_none rfl, descendStmt]

/-- One step back: what is reached from below is reached from the subtree itself. -/
theorem leads_of_change {t c : Subtree} {k : Nat} (written : each.Written s)
    (hc : c ∈ (t.change names.hooks k).children) (uncut : ∀ b, t = .stmt (.block b) → ¬ each.Binds b)
    (leads : Subtree.Leads (each.Around s) x c) : Subtree.Leads (each.Around s) x t ∨ names.OfLoop x := by
  cases t with
  | stmt s' =>
    simp only [Subtree.change, Naming.hooks, Naming.convertStmt] at hc
    split at hc
    · rename_i none
      refine .inl (.step ⟨.inr ⟨?_, hc⟩, uncut⟩ leads)
      rintro same
      cases same
      rw [ForEach.ofStmt?_of_written written] at none
      cases none
    · rename_i other found
      have writtenOther := ForEach.written_of_ofStmt? found
      have reached := leads.of_toLoop written hc
      have ofLoop (h : (names k).1 = x ∨ (names k).2 = x ∨ "length" = x) : names.OfLoop x := by
        rcases h with index | length | property
        · exact .inr ⟨k, .inl index⟩
        · exact .inr ⟨k, .inr length⟩
        · exact .inl property.symm
      by_cases same : s' = s
      · -- the statement itself: its function is cut out, and so is the body of its loop
        subst same
        obtain rfl : other = each :=
          Option.some.inj (found.symm.trans (ForEach.ofStmt?_of_written written))
        rcases reached with receiver | loop | ⟨uncut, -⟩
        · exact .inl (.step ⟨.inl ⟨rfl, rfl⟩, uncut⟩ receiver)
        · exact .inr (ofLoop loop)
        · exact absurd (other.binds_loopBody _) uncut
      · rcases reached with receiver | loop | ⟨-, rest⟩
        · exact .inl (.of_written writtenOther same (.inl receiver))
        · exact .inr (ofLoop loop)
        · exact .inl (.of_written writtenOther same (.inr rest))
  | _ => exact .inl (leads.of_child (by simp) hc)

/-- A name that is reached in a result, but not through the body of a loop for these parts, was reached in the source
without going into their function, or it stands in the loops. -/
theorem leads_of_walk (written : each.Written s) {t : Subtree} {k : Nat}
    (leads : Subtree.Leads each.Beyond x (t.walk names.hooks k)) :
    Subtree.Leads (each.Around s) x t ∨ names.OfLoop x := by
  generalize e : t.walk names.hooks k = t' at leads
  induction leads generalizing t k with
  | here name =>
    cases t with
    | identifier id =>
      cases e
      exact .inl (.here name)
    | _ => cases e
  | step first _ ih =>
    subst e
    obtain ⟨c, hc, j, e⟩ := Subtree.exists_of_mem_children_walk (Hooks.onStatements_idle _ _) first.2
    rcases ih e with leads | loop
    · exact leads_of_change written hc (not_binds_of_walk first.1) leads
    · exact .inr loop

/-! ## The loop of every statement -/

theorem exists_child_of_stmt_mem {t : Subtree} (h : .stmt s ∈ t.events) (ne : t ≠ .stmt s) :
    ∃ c ∈ t.children, Event.stmt s ∈ c.events := by
  rw [Subtree.events_eq, List.mem_append, List.mem_flatMap] at h
  rcases h with visit | child
  · exact absurd (Subtree.eq_of_stmt_mem_visits visit) ne
  · exact child

/-- Other statements stand in the receiver of a statement of the idiom, or in its function. -/
theorem ForEach.Written.stmt_mem_cases {other : ForEach} {s' : Stmt} (written : other.Written s')
    (h : Event.stmt s ∈ s'.events) (ne : s' ≠ s) :
    Event.stmt s ∈ other.receiver.events ∨ ∃ b ∈ other.body.body, Event.stmt s ∈ b.events := by
  cases written with
  | @mk _ _ _ _ id receiver property access params body rest name this stays =>
    obtain ⟨span, body⟩ := body
    have inProperty : Event.stmt s ∉ property.events := by
      unfold isForEachName at name
      split at name <;> simp_all [Expr.events]
    have inParams : Event.stmt s ∉ eventsOfExprs (params.map .identifier) := by
      simp [Subtree.eventsOfExprs_eq, Subtree.events, Expr.events]
    have inRest : Event.stmt s ∉ eventsOfExprs rest := by
      unfold isThisArgument at this
      split at this <;> simp_all [eventsOfExprs, Expr.events]
    have inId : Event.stmt s ∉ id.toList.map Event.identifier := by simp
    simp only [Stmt.events, Expr.events, eventsOfExprs, Block.events, List.mem_cons, List.mem_append, inProperty,
      inParams, inRest, inId, Event.stmt.injEq, reduceCtorEq, false_or, or_false] at h
    rcases h with same | receiver | stmts
    · exact absurd same.symm ne
    · exact .inl receiver
    · rw [Subtree.eventsOfStmts_eq, List.flatMap_map, List.mem_flatMap] at stmts
      exact .inr stmts

/-- The receiver lies below the statement. -/
theorem ForEach.Written.exists_above_receiver {other : ForEach} {s' : Stmt} (written : other.Written s') :
    ∃ c ∈ (Subtree.stmt s').children, c.Within (.expr other.receiver) := by
  cases written with
  | mk name this stays =>
    exact ⟨_, List.mem_singleton_self _, .head (List.mem_cons_self ..) (.single (List.mem_cons_self ..))⟩

/-- The statements of the function lie below the statement. -/
theorem ForEach.Written.exists_above_body {other : ForEach} {s' b : Stmt} (written : other.Written s')
    (mem : b ∈ other.body.body) : ∃ c ∈ (Subtree.stmt s').children, c.Within (.stmt b) := by
  cases written with
  | mk name this stays =>
    refine ⟨_, List.mem_singleton_self _, .head (List.mem_cons_of_mem _ (List.mem_cons_self ..)) ?_⟩
    refine .head (List.mem_append_right _ (List.mem_singleton_self _)) (.single (List.mem_map_of_mem mem))

/-- What a walk leaves of the one holds what it leaves of the other. -/
def Subtree.Carries (names : Naming) (t u : Subtree) : Prop :=
  ∀ k, ∃ j, (t.walk names.hooks k).Within (u.walk names.hooks j)

theorem Subtree.Carries.trans {t u v : Subtree} (h₁ : t.Carries names u) (h₂ : u.Carries names v) :
    t.Carries names v := by
  intro k
  obtain ⟨j, outer⟩ := h₁ k
  obtain ⟨i, inner⟩ := h₂ j
  exact ⟨i, Relation.ReflTransGen.trans outer inner⟩

theorem exists_within_child {t c : Subtree} {k : Nat} (hc : c ∈ (t.change names.hooks k).children) :
    ∃ j, (t.walk names.hooks k).Within (c.walk names.hooks j) := by
  obtain ⟨c', hc', j, rfl⟩ := Subtree.exists_mem_children_walk (Hooks.onStatements_idle _ _) hc
  exact ⟨j, .single hc'⟩

theorem carries_child {t c : Subtree} (stays : ∀ k, t.change names.hooks k = t) (hc : c ∈ t.children) :
    t.Carries names c :=
  fun k => exists_within_child (by rwa [stays k])

section Loop

variable {s' : Stmt} {other : ForEach} (found : ForEach.ofStmt? s' = some other)
include found

theorem exists_within_loop {c : Subtree} {k : Nat}
    (hc : c ∈ (Subtree.stmt (.forLoop (other.toLoop (names k).1 (names k).2))).children) :
    ∃ j, ((Subtree.stmt s').walk names.hooks k).Within (c.walk names.hooks j) := by
  refine exists_within_child ?_
  simp only [Subtree.change, Naming.hooks, Naming.convertStmt, found]
  exact hc

theorem carries_receiver : (Subtree.stmt s').Carries names (.expr other.receiver) := by
  intro k
  obtain ⟨j, outer⟩ := exists_within_loop found (k := k) (List.mem_cons_self ..)
  have inner : (Subtree.declaration (ForEach.varOf [ForEach.variableOf (names k).1 Expr.zero,
      ForEach.variableOf (names k).2 (ForEach.property other.receiver (Expr.ident "length") .dot)])).Carries names
      (.expr other.receiver) := by
    refine (carries_child (fun _ => rfl) (List.mem_cons_of_mem _ (List.mem_cons_self ..))).trans ?_
    refine (carries_child (fun _ => rfl) (List.mem_cons_of_mem _ (List.mem_cons_self ..))).trans ?_
    exact carries_child (fun _ => rfl) (List.mem_cons_self ..)
  obtain ⟨i, inner⟩ := inner j
  exact ⟨i, Relation.ReflTransGen.trans outer inner⟩

/-- The body of the loop stands in the result. -/
theorem exists_within_loopBody (names : Naming) (k : Nat) :
    ∃ j, ((Subtree.stmt s').walk names.hooks k).Within
      ((Subtree.block (other.loopBody (names k).1)).walk names.hooks j) := by
  obtain ⟨j, outer⟩ := exists_within_loop found (k := k) (List.mem_append_right _ (List.mem_singleton_self _))
  have inner : (Subtree.stmt (.block (other.loopBody (names k).1))).Carries names
      (.block (other.loopBody (names k).1)) :=
    carries_child (fun _ => rfl) (List.mem_singleton_self _)
  obtain ⟨i, inner⟩ := inner j
  exact ⟨i, Relation.ReflTransGen.trans outer inner⟩

theorem carries_body {b : Stmt} (mem : b ∈ other.body.body) : (Subtree.stmt s').Carries names (.stmt b) := by
  intro k
  obtain ⟨j, outer⟩ := exists_within_loopBody found names k
  have inner : (Subtree.block (other.loopBody (names k).1)).Carries names (.stmt b) :=
    carries_child (fun _ => rfl) (List.mem_map_of_mem (List.mem_append_right _ mem))
  obtain ⟨i, inner⟩ := inner j
  exact ⟨i, Relation.ReflTransGen.trans outer inner⟩

end Loop

/-- A part in which a statement stands is kept. -/
theorem exists_carried {t : Subtree} (h : .stmt s ∈ t.events) (ne : t ≠ .stmt s) :
    ∃ c, t.Carries names c ∧ .stmt s ∈ c.events ∧ c.events.length < t.events.length := by
  cases t with
  | stmt s' =>
    cases found : ForEach.ofStmt? s' with
    | none =>
      obtain ⟨c, hc, mem⟩ := exists_child_of_stmt_mem h ne
      refine ⟨c, carries_child (fun k => ?_) hc, mem, Subtree.length_events_lt hc⟩
      simp only [Subtree.change, Naming.hooks, Naming.convertStmt, found]
    | some other =>
      have written := ForEach.written_of_ofStmt? found
      rcases written.stmt_mem_cases h (fun e => ne (by rw [e])) with mem | ⟨b, hb, mem⟩
      · obtain ⟨c, hc, within⟩ := written.exists_above_receiver
        exact ⟨_, carries_receiver found, mem, Subtree.length_events_lt_of_within hc within⟩
      · obtain ⟨c, hc, within⟩ := written.exists_above_body hb
        exact ⟨_, carries_body found hb, mem, Subtree.length_events_lt_of_within hc within⟩
  | _ =>
    obtain ⟨c, hc, mem⟩ := exists_child_of_stmt_mem h ne
    exact ⟨c, carries_child (fun _ => rfl) hc, mem, Subtree.length_events_lt hc⟩

/-- What a walk leaves of a tree holds what it leaves of every statement in it. -/
theorem carries_stmt (t : Subtree) (h : .stmt s ∈ t.events) : t.Carries names (.stmt s) := by
  by_cases same : t = .stmt s
  · subst same
    exact fun k => ⟨k, .refl⟩
  · obtain ⟨c, carries, mem, smaller⟩ := exists_carried h same
    exact carries.trans (carries_stmt c mem)
termination_by t.events.length

end Walk

namespace Converter

/-- If the names of a program are reserved, then no variable of a loop is one of them. -/
theorem naming_not_mentioned {c : Converter} {program : Program} {x : String}
    (reserve : c.config.reserveUserNames = true) (occurs : program.Mentions x) (k : Nat) :
    (c.naming program k).1 ≠ x ∧ (c.naming program k).2 ≠ x := by
  have mem (dollar : x.startsWith "$" = true) : x ∈ (c.namesFor program).reserved := by
    have reserved : (c.namesFor program).reserved = NameSupply.dollarNames program := reserved_start reserve program
    rw [reserved, NameSupply.mem_dollarNames]
    exact ⟨(mem_names_iff program x).mpr occurs, dollar⟩
  obtain ⟨index, length⟩ := c.config.naming_not_mem (c.namesFor program) k
  constructor
  · rintro rfl
    exact index (mem (NameSupply.startsWith_numbered _ _))
  · rintro rfl
    exact length (mem (NameSupply.startsWith_numbered _ _))

theorem mentions_param {program : Program} {s : Stmt} {each : ForEach} (written : each.Written s)
    (met : .stmt s ∈ program.events) {p : Identifier} (hp : p ∈ each.params) : program.Mentions p.name := by
  have own : .identifier p ∈ s.events := by
    cases written with
    | mk name this stays =>
      simp only [Stmt.events, Expr.events, eventsOfExprs, List.mem_cons, List.mem_append]
      refine .inr (.inr (.inr (.inl (.inr (.inr (.inl (.inr ?_)))))))
      rw [Subtree.eventsOfExprs_eq, List.mem_flatMap]
      exact ⟨.expr (.identifier p), by simp [hp], by simp [Subtree.events, Expr.events]⟩
  obtain ⟨u, within, visit⟩ := Subtree.exists_within_of_mem_events (.program program) met
  obtain rfl := Subtree.eq_of_stmt_mem_visits visit
  have mem : .identifier p ∈ program.events := Subtree.events_subset_of_within within own
  rw [Program.events, List.mem_cons] at mem
  exact (meets_eventsOfStmts _ _).mp ⟨p, mem.resolve_left (by simp), rfl⟩

/-- A conversion brings no parameter out of the body of its loop. Of every statement that is the idiom there is such a
body in the result, which declares the parameters. Their names occur outside of it only if they did so before: outside
of the function, be it in the receiver or elsewhere. Only the name `length` and, if the names of the program are not
reserved, the variables of the loops are new there. -/
theorem parameters_stay_in_their_loop (c : Converter) {program : Program} {s : Stmt} {each : ForEach}
    (written : each.Written s) (met : .stmt s ∈ program.events) :
    (∃ b, .block b ∈ (c.convert program).1.events ∧ each.Binds b) ∧
    ∀ p ∈ each.params, Subtree.Leads each.Beyond p.name (.program (c.convert program).1) →
      Subtree.Leads (each.Outside s) p.name (.program program) ∨ p.name = "length" ∨
      c.config.reserveUserNames = false ∧
        ∃ k, (c.naming program k).1 = p.name ∨ (c.naming program k).2 = p.name := by
  constructor
  · have carries : (Subtree.program program).Carries (c.naming program) (.stmt s) := carries_stmt _ met
    obtain ⟨k, within⟩ := carries 0
    obtain ⟨j, body⟩ := exists_within_loopBody (ForEach.ofStmt?_of_written written) (c.naming program) k
    rw [← convert_eq_walk] at within
    refine ⟨(walkBlock (c.naming program).hooks (each.loopBody (c.naming program k).1) j).1, ?_,
      (each.binds_loopBody _).walkBlock j⟩
    exact Subtree.events_subset_of_within (Relation.ReflTransGen.trans within body)
      (Subtree.mem_events_of_mem_visits (List.mem_singleton_self _))
  · intro p hp leads
    rw [convert_eq_walk] at leads
    rcases leads_of_walk written leads with leads | length | drawn
    · exact .inl (leads.mono fun _ _ step => step.1)
    · exact .inr (.inl length)
    · cases reserve : c.config.reserveUserNames with
      | false => exact .inr (.inr ⟨rfl, drawn⟩)
      | true =>
        obtain ⟨k, same⟩ := drawn
        obtain ⟨index, length⟩ := naming_not_mentioned reserve (mentions_param written met hp) k
        exact absurd same (by simp [index, length])

/-- A loop with a parameter `x`, and the same name behind it. -/
def exampleBehind : Program :=
  ⟨Span.none, [forEachOver "a" "x" [], .expression Span.none (Expr.ident "x")]⟩

theorem parameters_stay_in_their_loop_exampleBehind :
    let parts : ForEach := ⟨Expr.ident "a", [Identifier.synthesized "x"], ⟨Span.none, []⟩⟩
    parts.Written (forEachOver "a" "x" []) ∧ .stmt (forEachOver "a" "x" []) ∈ exampleBehind.events ∧
    (∃ b, .block b ∈ ((new {}).convert exampleBehind).1.events ∧ parts.Binds b) ∧
    Subtree.Leads parts.Beyond "x" (.program ((new {}).convert exampleBehind).1) ∧
    Subtree.Leads (parts.Outside (forEachOver "a" "x" [])) "x" (.program exampleBehind) := by
  intro parts
  have written : parts.Written (forEachOver "a" "x" []) := ForEach.written_of_ofStmt? rfl
  have met : .stmt (forEachOver "a" "x" []) ∈ exampleBehind.events := List.mem_cons_of_mem _ (List.mem_cons_self ..)
  have result : ((new {}).convert exampleBehind).1.body.getLast? = some (.expression Span.none (Expr.ident "x")) := by
    cbv
  have behind : Subtree.Leads parts.Beyond "x" (.program ((new {}).convert exampleBehind).1) := by
    refine .step (c := .stmt (.expression Span.none (Expr.ident "x"))) ⟨by simp, ?_⟩ ?_
    · exact List.mem_map_of_mem (List.mem_of_getLast? result)
    · refine .step (c := .expr (Expr.ident "x")) ⟨by simp, List.mem_singleton_self _⟩ ?_
      exact .step ⟨by simp, List.mem_singleton_self _⟩ (.here rfl)
  obtain ⟨bound, outside⟩ := parameters_stay_in_their_loop (new {}) written met
  refine ⟨written, met, bound, behind, ?_⟩
  rcases outside (Identifier.synthesized "x") (List.mem_singleton_self _) behind with leads | length | ⟨off, -⟩
  · exact leads
  · exact absurd length (by decide)
  · cases off

/-- The parts of `x.forEach(function (x) { f(x); })`. -/
def exampleShadow : ForEach :=
  ⟨Expr.ident "x", [Identifier.synthesized "x"],
    ⟨Span.none, [.expression Span.none (.call Span.none (Expr.ident "f") [Expr.ident "x"])]⟩⟩

/-- The parameter has the name of the array, and the conversion makes `var x = x[$i1];` of it. -/
theorem caught_exampleShadow :
    let s := forEachOver "x" "x" exampleShadow.body.body
    exampleShadow.Written s ∧
    (∃ p ∈ exampleShadow.params, Subtree.Leads (exampleShadow.Outside s) p.name (.program ⟨Span.none, [s]⟩)) ∧
    ((new {}).convert ⟨Span.none, [s]⟩).1 = ⟨Span.none, [.forLoop (exampleShadow.toLoop "$i1" "$len2")]⟩ := by
  intro s
  refine ⟨ForEach.written_of_ofStmt? rfl, ⟨_, List.mem_singleton_self _, ?_⟩, by cbv⟩
  refine .step (c := .stmt s) (.inr ⟨by simp, List.mem_singleton_self _⟩) ?_
  refine .step (.inl ⟨rfl, rfl⟩) ?_
  exact .step (.inr ⟨by simp, List.mem_singleton_self _⟩) (.here rfl)

end Converter

end IndexedLoop
