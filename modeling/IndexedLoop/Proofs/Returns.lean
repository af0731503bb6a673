import IndexedLoop.Proofs.Origins

/-!
# Returns stay with their function

The `return` statements of a function are those that are reached from its statements without going into the body
of another function (`mem_ownReturnsOf_iff`). A conversion keeps them, one by one and in their order, with their
arguments converted (`ownReturnsOf_walk`): a function is taken apart only if it has none, so no `return` gets out of
its function, and none gets into a loop that is made.
-/

namespace IndexedLoop

/-! ## The returns of a function -/

mutual

/-- The `return` statements of the function in which a statement stands, from first to last. -/
def Stmt.ownReturns : Stmt → List Stmt
  | .ret span argument => [.ret span argument]
  | .block ⟨_, body⟩ => ownReturnsOf body
  | .forLoop ⟨_, _, _, _, body⟩ => body.ownReturns
  | .whileLoop ⟨_, _, body⟩ => body.ownReturns
  | .ifElse ⟨_, _, consequent, none⟩ => consequent.ownReturns
  | .ifElse ⟨_, _, consequent, some alternate⟩ => consequent.ownReturns ++ alternate.ownReturns
  | _ => []

/-- The `return` statements of the function in which these statements stand, from first to last. -/
def ownReturnsOf : List Stmt → List Stmt
  | [] => []
  | s :: rest => s.ownReturns ++ ownReturnsOf rest

end

/-- The statement is a `return`. -/
def Stmt.isReturn : Stmt → Bool
  | .ret .. => true
  | _ => false

/-- The subtrees right below a subtree, without the body of a function. -/
def Subtree.outsideBody : Subtree → List Subtree
  | .expr (.function fn) => fn.id.toList.map .identifier ++ fn.params.map .expr
  | .stmt (.functionDecl fn) => .identifier fn.id :: fn.params.map .expr
  | t => t.children

/-- A subtree is reached from another one without going into the body of a function. -/
def Subtree.Owns : Subtree → Subtree → Prop := Relation.ReflTransGen fun t c => c ∈ t.outsideBody

theorem mem_ownReturnsOf {ss : List Stmt} {s : Stmt} : s ∈ ownReturnsOf ss ↔ ∃ t ∈ ss, s ∈ t.ownReturns := by
  induction ss with
  | nil => simp [ownReturnsOf]
  | cons first rest ih => simp [ownReturnsOf, ih]

namespace Subtree

/-- The `return` is one of the function in which the subtree stands. -/
def HasReturn (s : Stmt) : Subtree → Prop
  | .program p => s ∈ ownReturnsOf p.body
  | .stmt t => s ∈ t.ownReturns
  | .block b => s ∈ ownReturnsOf b.body
  | .declaration _ | .declarator _ | .expr _ | .property _ | .identifier _ => False

/-- A subtree has the returns of what is right below it, the bodies of functions apart. -/
theorem HasReturn.of_outsideBody {s : Stmt} {t c : Subtree} (hc : c ∈ t.outsideBody) (h : HasReturn s c) :
    HasReturn s t := by
  cases t with
  | program p | block b =>
    obtain ⟨first, mem, rfl⟩ := List.mem_map.mp hc
    exact mem_ownReturnsOf.mpr ⟨first, mem, h⟩
  | stmt t =>
    cases t with
    | block b =>
      obtain rfl := List.mem_singleton.mp hc
      cases b
      exact h
    | forLoop l =>
      obtain ⟨_, init, _, _, _⟩ := l
      simp only [outsideBody, children, ofStmt, List.mem_append, List.mem_map, List.mem_singleton] at hc
      rcases hc with ((⟨i, -, rfl⟩ | ⟨e, -, rfl⟩) | ⟨e, -, rfl⟩) | rfl
      · cases i <;> cases h
      · cases h
      · cases h
      · exact h
    | whileLoop l =>
      obtain ⟨_, _, _⟩ := l
      simp only [outsideBody, children, ofStmt, List.mem_cons, List.not_mem_nil, or_false] at hc
      rcases hc with rfl | rfl
      · cases h
      · exact h
    | ifElse i =>
      obtain ⟨_, _, _, alternate⟩ := i
      simp only [outsideBody, children, ofStmt, List.mem_append, List.mem_cons, List.mem_map, List.not_mem_nil,
        or_false] at hc
      rcases hc with (rfl | rfl) | ⟨a, mem, rfl⟩
      · cases h
      · cases alternate with
        | none => exact h
        | some a => exact List.mem_append_left _ h
      · obtain rfl := Option.mem_toList.mp mem
        exact List.mem_append_right _ h
    | functionDecl fn =>
      simp only [outsideBody, List.mem_cons, List.mem_map] at hc
      rcases hc with rfl | ⟨e, -, rfl⟩ <;> cases h
    | ret span argument =>
      obtain ⟨e, -, rfl⟩ := List.mem_map.mp hc
      cases h
    | declaration _ | throw _ _ | expression _ _ =>
      obtain rfl := List.mem_singleton.mp hc
      cases h
    | brk _ | cont _ | empty _ | unknown _ => cases hc
  | declaration d =>
    obtain ⟨v, -, rfl⟩ := List.mem_map.mp hc
    cases h
  | declarator v =>
    simp only [outsideBody, children, List.mem_cons, List.mem_map] at hc
    rcases hc with rfl | ⟨e, -, rfl⟩ <;> cases h
  | expr e =>
    -- without the body of a function there are no statements in an expression
    have none : ∀ c ∈ outsideBody (.expr e), HasReturn s c ↔ False := by
      cases e <;> simp [outsideBody, children, ofExpr, HasReturn, or_imp, forall_and]
    exact ((none c hc).mp h).elim
  | property p =>
    simp only [outsideBody, children, List.mem_cons, List.not_mem_nil, or_false] at hc
    rcases hc with rfl | rfl <;> cases h
  | identifier id => cases hc

theorem HasReturn.of_owns {s : Stmt} {t u : Subtree} (owns : t.Owns u) (h : HasReturn s u) : HasReturn s t := by
  induction owns using Relation.ReflTransGen.head_induction_on with
  | refl => exact h
  | head child _ ih => exact ih.of_outsideBody child

end Subtree

mutual

theorem owns_of_mem_ownReturns {s : Stmt} : (t : Stmt) → s ∈ t.ownReturns →
    s.isReturn = true ∧ Subtree.Owns (.stmt t) (.stmt s)
  | .ret .., h => by
    obtain rfl := List.mem_singleton.mp h
    exact ⟨rfl, .refl⟩
  | .block ⟨_, body⟩, h => by
    obtain ⟨isReturn, first, mem, owns⟩ := owns_of_mem_ownReturnsOf body h
    exact ⟨isReturn, .head (List.mem_singleton_self _) (.head (List.mem_map_of_mem mem) owns)⟩
  | .forLoop ⟨_, _, _, _, body⟩, h =>
    have ⟨isReturn, owns⟩ := owns_of_mem_ownReturns body h
    ⟨isReturn, .head (List.mem_append_right _ (List.mem_singleton_self _)) owns⟩
  | .whileLoop ⟨_, _, body⟩, h =>
    have ⟨isReturn, owns⟩ := owns_of_mem_ownReturns body h
    ⟨isReturn, .head (List.mem_cons_of_mem _ (List.mem_singleton_self _)) owns⟩
  | .ifElse ⟨_, _, consequent, none⟩, h =>
    have ⟨isReturn, owns⟩ := owns_of_mem_ownReturns consequent h
    ⟨isReturn, .head (List.mem_cons_of_mem _ (List.mem_cons_self ..)) owns⟩
  | .ifElse ⟨_, _, consequent, some alternate⟩, h => by
    rcases List.mem_append.mp h with h | h
    · obtain ⟨isReturn, owns⟩ := owns_of_mem_ownReturns consequent h
      exact ⟨isReturn, .head (List.mem_cons_of_mem _ (List.mem_cons_self ..)) owns⟩
    · obtain ⟨isReturn, owns⟩ := owns_of_mem_ownReturns alternate h
      exact ⟨isReturn, .head (List.mem_append_right _ (List.mem_singleton_self _)) owns⟩
  | .declaration _, h | .functionDecl _, h | .throw .., h | .expression .., h | .brk _, h | .cont _, h | .empty _, h
  | .unknown _, h => by cases h

theorem owns_of_mem_ownReturnsOf {s : Stmt} : (ss : List Stmt) → s ∈ ownReturnsOf ss →
    s.isReturn = true ∧ ∃ first ∈ ss, Subtree.Owns (.stmt first) (.stmt s)
  | [], h => by cases h
  | first :: rest, h => by
    rcases List.mem_append.mp h with h | h
    · obtain ⟨isReturn, owns⟩ := owns_of_mem_ownReturns first h
      exact ⟨isReturn, first, List.mem_cons_self .., owns⟩
    · obtain ⟨isReturn, t, mem, owns⟩ := owns_of_mem_ownReturnsOf rest h
      exact ⟨isReturn, t, List.mem_cons_of_mem _ mem, owns⟩

end

/-- The returns of a function are reached from its statements without going into another function. -/
theorem mem_ownReturnsOf_iff {ss : List Stmt} {s : Stmt} :
    s ∈ ownReturnsOf ss ↔ s.isReturn = true ∧ ∃ first ∈ ss, Subtree.Owns (.stmt first) (.stmt s) := by
  refine ⟨owns_of_mem_ownReturnsOf ss, ?_⟩
  rintro ⟨isReturn, first, mem, owns⟩
  have own : Subtree.HasReturn s (.stmt s) := by
    cases s with
    | ret => exact List.mem_singleton_self _
    | _ => cases isReturn
  exact mem_ownReturnsOf.mpr ⟨first, mem, own.of_owns owns⟩

/-- The body, if a function is met. -/
def Event.body? : Event → Option Block
  | .function f => some f.body
  | .functionDecl f => some f.body
  | _ => none

/-- The bodies of the functions that a visit meets, in its order. -/
def bodiesOf (events : List Event) : List Block := events.filterMap Event.body?

/-! ## The recognizer -/

mutual

theorem Stmt.ownReturns_eq_nil_iff : (s : Stmt) → (s.ownReturns = [] ↔ s.returns = false)
  | .ret .. => by simp [Stmt.ownReturns, Stmt.returns]
  | .block ⟨_, body⟩ => by rw [Stmt.ownReturns, Stmt.returns, ownReturnsOf_eq_nil_iff body]
  | .forLoop ⟨_, _, _, _, body⟩ | .whileLoop ⟨_, _, body⟩ => by
    rw [Stmt.ownReturns, Stmt.returns, body.ownReturns_eq_nil_iff]
  | .ifElse ⟨_, _, consequent, none⟩ => by rw [Stmt.ownReturns, Stmt.returns, consequent.ownReturns_eq_nil_iff]
  | .ifElse ⟨_, _, consequent, some alternate⟩ => by
    rw [Stmt.ownReturns, Stmt.returns, List.append_eq_nil_iff, Bool.or_eq_false_iff, consequent.ownReturns_eq_nil_iff,
      alternate.ownReturns_eq_nil_iff]
  | .declaration _ | .functionDecl _ | .throw .. | .expression .. | .brk _ | .cont _ | .empty _ | .unknown _ => by
    simp [Stmt.ownReturns, Stmt.returns]

theorem ownReturnsOf_eq_nil_iff : (ss : List Stmt) → (ownReturnsOf ss = [] ↔ anyReturns ss = false)
  | [] => by simp [ownReturnsOf, anyReturns]
  | s :: rest => by
    rw [ownReturnsOf, anyReturns, List.append_eq_nil_iff, Bool.or_eq_false_iff, s.ownReturns_eq_nil_iff,
      ownReturnsOf_eq_nil_iff rest]

end

/-- The loop has no return of its own. -/
theorem ForEach.Written.ownReturns_toLoop {each : ForEach} {s : Stmt} (written : each.Written s)
    (index length : String) : (each.toLoop index length).body.ownReturns = [] := by
  rw [Stmt.ownReturns_eq_nil_iff]
  have stays : anyReturns each.body.body = false := by
    cases written with
    | mk name this stays => exact stays
  simp only [toLoop, returns_block, anyReturns_append, anyReturns_bindings, stays, Bool.or_false]

/-! ## What a conversion does to the returns -/

section Walk

variable (names : Naming)

/-- One statement is what a conversion leaves of the other. -/
def Naming.Leaves (s s' : Stmt) : Prop := ∃ k, (walkStmt names.hooks s k).1 = s'

mutual

/-- A conversion keeps the returns of a function in their order. The recursion is that of the walk: it goes on in
the loop that takes the place of a statement. -/
theorem ownReturns_walk (s : Stmt) (k : Nat) :
    List.Forall₂ names.Leaves s.ownReturns (walkStmt names.hooks s k).1.ownReturns := by
  have idle : names.hooks.OnStatements := Hooks.onStatements_idle _ _
  match found : ForEach.ofStmt? s with
  | some each =>
    have written := ForEach.written_of_ofStmt? found
    have none : s.ownReturns = [] := by
      cases written
      simp only [Stmt.ownReturns]
    rw [names.walkStmt_of_some found, descendStmt, none, ← written.ownReturns_toLoop (names k).1 (names k).2]
    exact ownReturns_walk (each.toLoop (names k).1 (names k).2).body _
  | none =>
    rw [names.walkStmt_of_none found]
    cases s with
    | ret span argument =>
      rw [descendStmt]
      exact .cons ⟨k, by rw [names.walkStmt_of_none found, descendStmt]⟩ .nil
    | block b =>
      obtain ⟨span, body⟩ := b
      rw [descendStmt, walkBlock]
      exact ownReturnsOf_walk body k
    | forLoop l =>
      obtain ⟨span, init, test, update, body⟩ := l
      rw [descendStmt]
      exact ownReturns_walk body _
    | whileLoop l =>
      obtain ⟨span, test, body⟩ := l
      rw [descendStmt]
      exact ownReturns_walk body _
    | ifElse i =>
      obtain ⟨span, test, consequent, alternate⟩ := i
      cases alternate with
      | none =>
        rw [descendStmt, idle.ifElse, walkBranch]
        exact ownReturns_walk consequent _
      | some alternate =>
        rw [descendStmt, idle.ifElse, walkBranch]
        exact List.rel_append (ownReturns_walk consequent _) (ownReturns_walk alternate _)
    | declaration _ | functionDecl _ | throw _ _ | expression _ _ | brk _ | cont _ | empty _ | unknown _ =>
      rw [descendStmt]
      exact .nil
termination_by s.weight
decreasing_by
  · have le := ForEach.weight_toLoop_le found (names k).1 (names k).2
    rw [Stmt.weight, ForLoop.weight_eq] at le
    omega
  all_goals simp only [Stmt.weight, Block.weight, ForLoop.weight, WhileLoop.weight, IfElse.weight,
    weightOfBranch]; omega

theorem ownReturnsOf_walk (ss : List Stmt) (k : Nat) :
    List.Forall₂ names.Leaves (ownReturnsOf ss) (ownReturnsOf (walkStmts names.hooks ss k).1) :=
  match ss with
  | [] => by rw [walkStmts]; exact .nil
  | s :: rest => by
    rw [walkStmts]
    exact List.rel_append (ownReturns_walk s k) (ownReturnsOf_walk rest _)
termination_by weightOfStmts ss
decreasing_by all_goals (simp only [weightOfStmts]; omega)

end

end Walk

/-! ## Conversions that start later -/

theorem Config.supplyAt_supplyAt (config : Config) (s : NameSupply) (k j : Nat) :
    config.supplyAt (config.supplyAt s k) j = config.supplyAt s (k + j) := by
  induction j with
  | zero => rfl
  | succ j ih => rw [supplyAt, ih, ← Nat.add_assoc, supplyAt]

/-- Beginning with the `k`-th pair is the same as leaving out the pairs before it. -/
theorem Naming.walkStmts_skip (names : Naming) (k : Nat) (ss : List Stmt) :
    (walkStmts (Naming.hooks fun j => names (k + j)) ss 0).1 = (walkStmts names.hooks ss k).1 := by
  let later : Naming := fun j => names (k + j)
  have closed : (Law.beside later.hooks fun j i => i = k + j).Closed names.hooks.stmt := by
    refine Law.beside_closed (Hooks.onStatements_idle _ _) ?_
    rintro s j _ rfl
    simp only [hooks, convertStmt]
    cases ForEach.ofStmt? s with
    | none => exact ⟨rfl, rfl⟩
    | some each => exact ⟨rfl, rfl⟩
  exact ((closed.holds (Hooks.onStatements_idle _ _)).stmts ss k 0 rfl).1

namespace Converter

/-- The converter when it has drawn `k` pairs of names. -/
def afterPairs (c : Converter) (k : Nat) : Converter := { c with names := c.config.supplyAt c.names k }

/-- The converter when it has looked at a program and is about to convert it. -/
def about (c : Converter) (program : Program) : Converter := { c with names := c.namesFor program }

theorem convertStmts_fst (c : Converter) (ss : List Stmt) :
    (c.convertStmts ss).1 = (walkStmts (c.config.naming c.names).hooks ss 0).1 := by
  have same := (Conversion.walkStmts_naming c.config ss (c.start (.stmts ss))).1
  rw [(Conversion.walkStmts_recording ..).1] at same
  exact same.symm

theorem convertStmts_afterPairs (c : Converter) (k : Nat) (ss : List Stmt) :
    ((c.afterPairs k).convertStmts ss).1 = (walkStmts (c.config.naming c.names).hooks ss k).1 := by
  have names : (c.afterPairs k).config.naming (c.afterPairs k).names = fun j => c.config.naming c.names (k + j) := by
    funext j
    simp only [Config.naming, afterPairs, Config.supplyAt_supplyAt]
  rw [convertStmts_fst, names, Naming.walkStmts_skip]

/-- The returns of the function in which the statements stand stay the same in number and order: the `k`-th one is
what the converter makes of the `k`-th one when it comes to it. -/
def KeepsReturns (c : Converter) (before after : List Stmt) : Prop :=
  List.Forall₂ (fun s s' => ∃ k, ((c.afterPairs k).convertStmts [s]).1 = [s']) (ownReturnsOf before)
    (ownReturnsOf after)

theorem keepsReturns_convertStmts (c : Converter) (ss : List Stmt) : c.KeepsReturns ss (c.convertStmts ss).1 := by
  rw [convertStmts_fst]
  refine (ownReturnsOf_walk (c.config.naming c.names) ss 0).imp ?_
  rintro s _ ⟨k, rfl⟩
  refine ⟨k, ?_⟩
  rw [convertStmts_afterPairs, walkStmts, walkStmts]

theorem convert_eq_convertStmts (c : Converter) (program : Program) :
    (c.convert program).1 = ⟨program.span, ((c.about program).convertStmts program.body).1⟩ := by
  rw [convert_fst, convertStmts_fst]
  rfl

/-! ### Functions that survive -/

/-- The body of a function in the result was left of the body of a function in the source. -/
theorem exists_body_of_mem {c : Converter} {program : Program} {b' : Block}
    (h : b' ∈ bodiesOf (c.convert program).1.events) :
    ∃ b ∈ bodiesOf program.events, ∃ k, (walkBlock (c.naming program).hooks b k).1 = b' := by
  have idle : (c.naming program).hooks.OnStatements := Hooks.onStatements_idle _ _
  obtain ⟨event, mem, body⟩ := List.mem_filterMap.mp h
  obtain ⟨u, u', met, left, visit⟩ := exists_met_of_mem_events mem
  cases event with
  | function f' =>
    obtain rfl := Option.some.inj body
    obtain rfl := Subtree.eq_of_function_mem_visits visit
    obtain ⟨f, k, rfl, same⟩ := left.exists_function idle
    refine ⟨f.body, List.mem_filterMap.mpr ⟨.function f, ?_, rfl⟩, k, same⟩
    exact met.mem_events rfl (Subtree.mem_events_of_mem_visits (by simp [Subtree.visits]))
  | functionDecl f' =>
    obtain rfl := Option.some.inj body
    obtain rfl := Subtree.eq_of_functionDecl_mem_visits visit
    obtain ⟨f, k, rfl, same⟩ := left.exists_functionDecl
    refine ⟨f.body, List.mem_filterMap.mpr ⟨.functionDecl f, ?_, rfl⟩, k, same⟩
    exact met.mem_events rfl (Subtree.mem_events_of_mem_visits (by simp [Subtree.visits, Subtree.visitsOfStmt]))
  | _ => cases body

/-! ### Loops that are made -/

/-- A loop in the result has the variables of a loop in the source, or it has no return of its own. -/
theorem loop_cases {c : Converter} {program : Program} {l' : ForLoop}
    (h : l' ∈ loopsOf (c.convert program).1.events) :
    (∃ l ∈ loopsOf program.events, l'.declared = l.declared) ∨ l'.body.ownReturns = [] := by
  obtain ⟨event, mem, loop⟩ := List.mem_filterMap.mp h
  obtain ⟨u, u', met, left, visit⟩ := exists_met_of_mem_events mem
  cases event with
  | forLoop l =>
    obtain rfl := Option.some.inj loop
    obtain rfl := Subtree.eq_of_forLoop_mem_visits visit
    rcases left.loop_cases with ⟨l₀, rfl, same⟩ | ⟨s, each, index, length, k, written, same⟩
    · refine .inl ⟨l₀, List.mem_filterMap.mpr ⟨.forLoop l₀, ?_, rfl⟩, same⟩
      exact met.mem_events rfl (Subtree.mem_events_of_mem_visits (by simp [Subtree.visits, Subtree.visitsOfStmt]))
    · have returns := ownReturns_walk (c.naming program) (each.toLoop index length).body k
      rw [written.ownReturns_toLoop, same] at returns
      exact .inr (List.forall₂_nil_left_iff.mp returns)
  | _ => cases loop

/-- No loop that is made has a return of its own: in the skeleton, its variables are no names of the source. -/
theorem ownReturns_of_mem_made {c : Converter} {program : Program} {l : ForLoop} (h : l ∈ c.made program) :
    l.body.ownReturns = [] := by
  obtain ⟨l₀, hl, rfl⟩ := List.mem_map.mp h
  obtain ⟨mem, holes⟩ := List.mem_filter.mp hl
  have none : l₀.body.ownReturns = [] := by
    rcases loop_cases mem with ⟨source, hsource, same⟩ | none
    · obtain ⟨hole, hhole, e⟩ := List.mem_map.mp (of_decide_eq_true holes)
      have declared : hole.1 ∈ source.declared := by simp [← same, ← e, bothNames]
      refine absurd (Program.mentions_of_declared hsource declared) (program.skeleton.fresh _ ?_)
      exact List.mem_flatMap.mpr ⟨hole, hhole, by simp [bothNames]⟩
    · exact none
  rw [Stmt.ownReturns_eq_nil_iff] at none ⊢
  cases l₀
  exact (Stmt.returns_relabel ..).trans none

/-- No `return` changes its function. The returns that are reached from statements without going into the body of a
function, which are the ones that the recognizer looks for, stay the same in number and order, and each is converted
on its own: so it is at the top of a program, in statements, and in every function that is left of a program. No loop
that is made has a return of its own. -/
theorem returns_stay_in_their_function (c : Converter) :
    (∀ ss, (∀ s, s ∈ ownReturnsOf ss ↔ s.isReturn = true ∧ ∃ first ∈ ss, Subtree.Owns (.stmt first) (.stmt s)) ∧
      (anyReturns ss = false ↔ ownReturnsOf ss = [])) ∧
    (∀ ss, c.KeepsReturns ss (c.convertStmts ss).1) ∧
    ∀ program,
      (c.about program).KeepsReturns program.body (c.convert program).1.body ∧
      (∀ b' ∈ bodiesOf (c.convert program).1.events, ∃ b ∈ bodiesOf program.events, ∃ k,
        b' = ⟨b.span, (((c.about program).afterPairs k).convertStmts b.body).1⟩ ∧
        ((c.about program).afterPairs k).KeepsReturns b.body b'.body) ∧
      ∀ l ∈ c.made program, l.body.ownReturns = [] := by
  refine ⟨fun ss => ⟨fun s => mem_ownReturnsOf_iff, (ownReturnsOf_eq_nil_iff ss).symm⟩,
    c.keepsReturns_convertStmts, fun program => ⟨?_, fun b' h => ?_, fun l => ownReturns_of_mem_made⟩⟩
  · rw [convert_eq_convertStmts]
    exact (c.about program).keepsReturns_convertStmts program.body
  · obtain ⟨b, mem, k, same⟩ := exists_body_of_mem h
    have body : b' = ⟨b.span, (((c.about program).afterPairs k).convertStmts b.body).1⟩ := by
      rw [← same, walkBlock, convertStmts_afterPairs]
      rfl
    refine ⟨b, mem, k, body, ?_⟩
    rw [body]
    exact ((c.about program).afterPairs k).keepsReturns_convertStmts b.body

/-- A function with a loop, in which another function returns, and then a return of its own. -/
def exampleReturns : Program :=
  ⟨Span.none, [.functionDecl ⟨Span.none, Identifier.synthesized "f", [Expr.ident "a"], ⟨Span.none,
    [forEachOver "a" "x" [.expression Span.none (.call Span.none (Expr.ident "g")
      [.function ⟨Span.none, none, [], ⟨Span.none, [.ret Span.none (some (Expr.ident "x"))]⟩⟩])],
    .ret Span.none (some (Expr.ident "a"))]⟩⟩]⟩

theorem returns_stay_in_their_function_exampleReturns :
    ((bodiesOf ((new {}).convert exampleReturns).1.events).map fun b => ownReturnsOf b.body) =
      [[.ret Span.none (some (Expr.ident "a"))], [.ret Span.none (some (Expr.ident "x"))]] ∧
    (∀ b' ∈ bodiesOf ((new {}).convert exampleReturns).1.events, ∃ b ∈ bodiesOf exampleReturns.events, ∃ k,
      (((new {}).about exampleReturns).afterPairs k).KeepsReturns b.body b'.body) ∧
    ((new {}).made exampleReturns).map (fun l => l.body.ownReturns) = [[]] := by
  obtain ⟨-, -, programs⟩ := (new {}).returns_stay_in_their_function
  obtain ⟨-, bodies, loops⟩ := programs exampleReturns
  refine ⟨by cbv, fun b' mem => ?_, ?_⟩
  · obtain ⟨b, hb, k, -, keeps⟩ := bodies b' mem
    exact ⟨b, hb, k, keeps⟩
  · have one : ((new {}).made exampleReturns).length = 1 := by
      rw [((new {}).counts_made_convert exampleReturns).length_eq]
      cbv
    obtain ⟨l, e⟩ := List.length_eq_one_iff.mp one
    rw [e, List.map_singleton, loops l (by simp [e])]

end Converter

end IndexedLoop
