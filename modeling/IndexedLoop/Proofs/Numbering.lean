import IndexedLoop.Proofs.Idiom
import IndexedLoop.Proofs.OnePass
import Mathlib

/-!
# How many loops are made, and in which order

A conversion repeats the receiver of a `forEach` statement in the loop, up to three times, and then converts
each of the copies. So a program is converted more often than it has `forEach` statements:
`Program.conversions` is the number (`walkStmts_count`). The loops are made in the order in which a visit of the
result meets them: if the `k`-th statement that is converted gets the `k`-th of a sequence of pairs of names, then
these pairs are found in this order in the heads of the loops (`counts_walkStmts`).
-/

namespace IndexedLoop

namespace ForEach

/-- How often the receiver stands in the loop: for the length, for the element and for the array. -/
def copies (each : ForEach) : Nat :=
  1 + (if 1 ≤ each.params.length then 1 else 0) + (if 3 ≤ each.params.length then 1 else 0)

end ForEach

/-! ## The number of conversions -/

mutual

/-- The number of conversions inside an expression. -/
def Expr.conversions : Expr → Nat
  | .assignment _ _ left right | .binary _ _ left right => left.conversions + right.conversions
  | .unary _ _ argument | .update _ _ _ argument => argument.conversions
  | .sequence _ expressions => conversionsOfExprs expressions
  | .function fn => fn.conversions
  | .call _ callee arguments | .new _ callee arguments =>
    callee.conversions + conversionsOfExprs arguments
  | .conditional _ test consequent alternate =>
    test.conversions + consequent.conversions + alternate.conversions
  | .member _ object property _ => object.conversions + property.conversions
  | .object _ properties => conversionsOfProperties properties
  | .array _ elements => conversionsOfElements elements
  | .this _ | .identifier _ | .literal _ | .unknown _ => 0
termination_by e => 3 * e.weight
decreasing_by all_goals (simp only [Expr.weight]; omega)

def conversionsOfExprs : List Expr → Nat
  | [] => 0
  | e :: rest => e.conversions + conversionsOfExprs rest
termination_by es => 3 * weightOfExprs es + 2
decreasing_by all_goals (simp only [weightOfExprs]; omega)

def conversionsOfElements : List (Option Expr) → Nat
  | [] => 0
  | none :: rest => conversionsOfElements rest
  | some e :: rest => e.conversions + conversionsOfElements rest
termination_by es => 3 * weightOfElements es + 2
decreasing_by all_goals (simp only [weightOfElements]; omega)

def conversionsOfProperties : List Property → Nat
  | [] => 0
  | ⟨_, key, value⟩ :: rest => key.conversions + value.conversions + conversionsOfProperties rest
termination_by ps => 3 * weightOfProperties ps + 2
decreasing_by all_goals (simp only [weightOfProperties]; omega)

def Function.conversions (f : Function) : Nat := conversionsOfExprs f.params + f.body.conversions
termination_by 3 * f.weight
decreasing_by all_goals (rw [Function.weight_eq]; omega)

def Block.conversions (b : Block) : Nat := conversionsOfStmts b.body
termination_by 3 * b.weight
decreasing_by all_goals (rw [Block.weight_eq]; omega)

def conversionsOfStmts : List Stmt → Nat
  | [] => 0
  | s :: rest => s.conversions + conversionsOfStmts rest
termination_by ss => 3 * weightOfStmts ss + 2
decreasing_by all_goals (simp only [weightOfStmts]; omega)

def conversionsOfDeclarators : List Declarator → Nat
  | [] => 0
  | ⟨_, _, init⟩ :: rest => conversionsOfOption init + conversionsOfDeclarators rest
termination_by ds => 3 * weightOfDeclarators ds + 2
decreasing_by all_goals (simp only [weightOfDeclarators]; omega)

def conversionsOfOption : Option Expr → Nat
  | none => 0
  | some e => e.conversions
termination_by e => 3 * weightOfOption e + 2
decreasing_by all_goals (simp only [weightOfOption]; omega)

def conversionsOfForInit : Option ForInit → Nat
  | none => 0
  | some (.declaration decl) => conversionsOfDeclarators decl.declarators
  | some (.expression e) => e.conversions
termination_by init => 3 * weightOfForInit init + 2
decreasing_by
  · simp only [weightOfForInit, Declaration.weight_eq]; omega
  · simp only [weightOfForInit]; omega

def conversionsOfBranch : Option Stmt → Nat
  | none => 0
  | some s => s.conversions
termination_by s => 3 * weightOfBranch s + 2
decreasing_by all_goals (simp only [weightOfBranch]; omega)

/-- The number of conversions of a statement and inside it. The receiver of the idiom is converted in each of
its copies. -/
def Stmt.conversions (s : Stmt) : Nat :=
  match _h : ForEach.ofStmt? s with
  | some each => 1 + each.copies * each.receiver.conversions + each.body.conversions
  | none => s.conversionsInside
termination_by 3 * s.weight + 1
decreasing_by
  · have := ForEach.weight_ofStmt? _h; omega
  · have := ForEach.weight_ofStmt? _h; omega
  · omega

/-- The number of conversions inside a statement that is not converted itself. -/
def Stmt.conversionsInside : Stmt → Nat
  | .declaration decl => conversionsOfDeclarators decl.declarators
  | .functionDecl fn => conversionsOfExprs fn.params + fn.body.conversions
  | .block b => b.conversions
  | .ret _ argument => conversionsOfOption argument
  | .forLoop loop =>
    conversionsOfForInit loop.init + conversionsOfOption loop.test + conversionsOfOption loop.update +
      loop.body.conversions
  | .whileLoop loop => loop.test.conversions + loop.body.conversions
  | .ifElse branch =>
    branch.test.conversions + branch.consequent.conversions + conversionsOfBranch branch.alternate
  | .throw _ argument => argument.conversions
  | .expression _ expr => expr.conversions
  | .brk _ | .cont _ | .empty _ | .unknown _ => 0
termination_by s => 3 * s.weight
decreasing_by
  all_goals simp only [Stmt.weight, Declaration.weight_eq, FunctionDecl.weight_eq, ForLoop.weight_eq,
    WhileLoop.weight_eq, IfElse.weight_eq]
  all_goals omega

end

/-- The number of conversions of a program. -/
def Program.conversions (program : Program) : Nat := conversionsOfStmts program.body

/-! ## The conversions inside the loop -/

theorem Stmt.conversions_of_none {s : Stmt} (h : ForEach.ofStmt? s = none) :
    s.conversions = s.conversionsInside := by
  unfold Stmt.conversions
  split
  · rename_i found
    rw [h] at found
    cases found
  · rfl

theorem Stmt.conversions_of_some {s : Stmt} {each : ForEach} (h : ForEach.ofStmt? s = some each) :
    s.conversions = 1 + each.copies * each.receiver.conversions + each.body.conversions := by
  unfold Stmt.conversions
  split
  · rename_i found
    rw [h] at found
    cases found
    rfl
  · rename_i found
    rw [h] at found
    cases found

theorem conversionsOfStmts_append (xs ys : List Stmt) :
    conversionsOfStmts (xs ++ ys) = conversionsOfStmts xs + conversionsOfStmts ys := by
  induction xs with
  | nil => simp [conversionsOfStmts]
  | cons s rest ih => simp only [List.cons_append, conversionsOfStmts, ih, Nat.add_assoc]

namespace ForEach

theorem conversions_binding (name : String) (init : Expr) :
    (Stmt.declaration (varOf [variableOf name init])).conversions = init.conversions := by
  rw [Stmt.conversions_of_none rfl]
  simp [varOf, variableOf, Stmt.conversionsInside, conversionsOfDeclarators, conversionsOfOption]

/-- From the fourth on, parameters are bound to nothing. -/
theorem conversionsOfStmts_bindings_rest (receiver : Expr) (index : String) (k : Nat)
    (ids : List Identifier) : conversionsOfStmts (bindings receiver index (k + 3) ids) = 0 := by
  induction ids generalizing k with
  | nil => simp [bindings, conversionsOfStmts]
  | cons id rest ih =>
    have later : conversionsOfStmts (bindings receiver index (k + 3 + 1) rest) = 0 :=
      Nat.add_right_comm k 1 3 ▸ ih (k + 1)
    simp [bindings, conversionsOfStmts, conversions_binding, argument, Expr.conversions, Expr.zero, later]

theorem conversionsOfStmts_bindings (each : ForEach) (index : String) :
    each.receiver.conversions + conversionsOfStmts (bindings each.receiver index 0 each.params) =
      each.copies * each.receiver.conversions := by
  unfold copies
  match each.params with
  | [] => simp [bindings, conversionsOfStmts]
  | [_] =>
    simp [bindings, argument, property, conversionsOfStmts, conversions_binding, Expr.conversions, Expr.ident]
    omega
  | [_, _] =>
    simp [bindings, argument, property, conversionsOfStmts, conversions_binding, Expr.conversions, Expr.ident]
    omega
  | _ :: _ :: _ :: rest =>
    have none := conversionsOfStmts_bindings_rest each.receiver index 0 rest
    simp [bindings, argument, property, conversionsOfStmts, conversions_binding, Expr.conversions, Expr.ident,
      none]
    omega

/-- What is left to convert when the loop stands in its place. -/
theorem conversionsInside_toLoop (each : ForEach) (index length : String) :
    (Stmt.forLoop (each.toLoop index length)).conversionsInside =
      each.copies * each.receiver.conversions + each.body.conversions := by
  rw [← conversionsOfStmts_bindings each index, Stmt.conversionsInside, toLoop, Stmt.conversions_of_none rfl]
  simp only [varOf, variableOf, property, Stmt.conversionsInside, Block.conversions, conversionsOfForInit,
    conversionsOfDeclarators, conversionsOfOption, conversionsOfStmts_append, Expr.conversions, Expr.ident,
    Expr.zero]
  omega

end ForEach

/-! ## The loops that a visit meets -/

/-- The loop, if a loop is met. -/
def Event.loop? : Event → Option ForLoop
  | .forLoop l => some l
  | _ => none

/-- The loops that a visit meets, in its order. -/
def loopsOf (events : List Event) : List ForLoop := events.filterMap Event.loop?

@[simp]
theorem loopsOf_nil : loopsOf [] = [] := rfl

@[simp]
theorem loopsOf_cons (event : Event) (events : List Event) :
    loopsOf (event :: events) = event.loop?.toList ++ loopsOf events := by
  cases h : event.loop? <;> simp [loopsOf, h]

@[simp]
theorem loopsOf_append (xs ys : List Event) : loopsOf (xs ++ ys) = loopsOf xs ++ loopsOf ys :=
  List.filterMap_append

theorem mem_loopsOf {l : ForLoop} {events : List Event} : l ∈ loopsOf events ↔ .forLoop l ∈ events := by
  induction events with
  | nil => simp
  | cons event rest ih => cases event <;> simp [Event.loop?, ih, eq_comm]

@[simp]
theorem loopsOf_identifiers (id : Option Identifier) : loopsOf (id.toList.map .identifier) = [] := by
  cases id <;> rfl

/-- The variables that are declared first in the head of a loop. -/
def declaredIn : Option ForInit → List String
  | some (.declaration decl) => decl.declarators.map fun d => d.id.name
  | _ => []

namespace ForLoop

/-- The variables that are declared in the head of a loop. -/
def declared (l : ForLoop) : List String := declaredIn l.init

/-- The head of the loop is `var i = …, n = …; i < n; i++`, with these names for `i` and `n`. -/
structure Counts (l : ForLoop) (names : String × String) : Prop where
  declared : l.declared = [names.1, names.2]
  test : l.test = some (.binary .none .lt (Expr.ident names.1) (Expr.ident names.2))
  update : l.update = some (.update .none .increment false (Expr.ident names.1))

end ForLoop

theorem ForEach.counts_toLoop (each : ForEach) (index length : String) :
    (each.toLoop index length).Counts (index, length) :=
  ⟨rfl, rfl, rfl⟩

namespace Stmt

/-- The loop, if the statement is one. -/
def loop? : Stmt → Option ForLoop
  | .forLoop l => some l
  | _ => none

/-- The loops that a visit meets inside a statement. -/
def innerLoops : Stmt → List ForLoop
  | .forLoop l =>
    loopsOf (eventsOfForInit l.init) ++ loopsOf (eventsOfOption l.test) ++ loopsOf (eventsOfOption l.update) ++
      loopsOf l.body.events
  | s => loopsOf s.events

theorem loops_events (s : Stmt) : loopsOf s.events = s.loop?.toList ++ s.innerLoops := by
  cases s with
  | forLoop l =>
    obtain ⟨_, _, _, _, _⟩ := l
    simp [events, loop?, innerLoops, Event.loop?]
  | _ => rfl

end Stmt

/-! A node with fields has the loops of its fields. -/

theorem loops_function (f : Function) :
    loopsOf (Expr.function f).events = loopsOf (eventsOfExprs f.params) ++ loopsOf f.body.events := by
  cases f
  simp [Expr.events, Event.loop?]

theorem loops_block (b : Block) : loopsOf b.events = loopsOf (eventsOfStmts b.body) := by
  cases b
  simp [Block.events, Event.loop?]

theorem loops_declaration (d : Declaration) :
    loopsOf d.events = loopsOf (eventsOfDeclarators d.declarators) := by
  cases d
  simp [Declaration.events, Event.loop?]

theorem innerLoops_functionDecl (f : FunctionDecl) :
    (Stmt.functionDecl f).innerLoops = loopsOf (eventsOfExprs f.params) ++ loopsOf f.body.events := by
  cases f
  simp [Stmt.innerLoops, Stmt.events, Event.loop?]

theorem innerLoops_whileLoop (l : WhileLoop) :
    (Stmt.whileLoop l).innerLoops = loopsOf l.test.events ++ loopsOf l.body.events := by
  cases l
  simp [Stmt.innerLoops, Stmt.events, Event.loop?]

theorem innerLoops_ifElse (i : IfElse) :
    (Stmt.ifElse i).innerLoops =
      loopsOf i.test.events ++ loopsOf i.consequent.events ++ loopsOf (eventsOfBranch i.alternate) := by
  obtain ⟨_, _, _, alternate⟩ := i
  cases alternate <;> simp [Stmt.innerLoops, Stmt.events, Event.loop?, eventsOfBranch]

theorem eventsOfStmts_append (xs ys : List Stmt) :
    eventsOfStmts (xs ++ ys) = eventsOfStmts xs ++ eventsOfStmts ys := by
  induction xs with
  | nil => simp [eventsOfStmts]
  | cons s rest ih => simp only [List.cons_append, eventsOfStmts, ih, List.append_assoc]

/-- A function or a loop. -/
def Event.isFunctionOrLoop : Event → Bool
  | .function _ | .functionDecl _ | .forLoop _ => true
  | _ => false

namespace ForEach

variable {event : Event} (kind : event.isFunctionOrLoop = true)
include kind

theorem mem_events_argument {receiver : Expr} {index : String} {k : Nat}
    (h : event ∈ (argument receiver index k).events) : event ∈ receiver.events := by
  unfold argument at h
  split at h
  · simp only [property, Expr.ident, Expr.events, List.mem_cons, List.mem_append, List.not_mem_nil, or_false] at h
    rcases h with rfl | receiver | rfl | rfl
    · cases kind
    · exact receiver
    · cases kind
    · cases kind
  · simp only [Expr.ident, Expr.events, List.mem_cons, List.not_mem_nil, or_false] at h
    rcases h with rfl | rfl <;> cases kind
  · exact h
  · simp only [Expr.zero, Expr.events, List.mem_cons, List.not_mem_nil, or_false] at h
    rcases h with rfl | rfl <;> cases kind

theorem mem_events_bindings {receiver : Expr} {index : String} {k : Nat} {ids : List Identifier}
    (h : event ∈ eventsOfStmts (bindings receiver index k ids)) : event ∈ receiver.events := by
  induction ids generalizing k with
  | nil => simp [bindings, eventsOfStmts] at h
  | cons id rest ih =>
    simp only [bindings, eventsOfStmts, Stmt.events, varOf, variableOf, Declaration.events, eventsOfDeclarators,
      eventsOfOption, List.mem_cons, List.mem_append, List.not_mem_nil, or_false] at h
    rcases h with (rfl | rfl | rfl | rfl | first) | later
    · cases kind
    · cases kind
    · cases kind
    · cases kind
    · exact mem_events_argument kind first
    · exact ih later

/-- All functions and loops inside the loop come from the receiver or the function. -/
theorem mem_events_toLoop {each : ForEach} {index length : String}
    (h : event ∈ eventsOfForInit (each.toLoop index length).init ++
      eventsOfOption (each.toLoop index length).test ++ eventsOfOption (each.toLoop index length).update ++
      (each.toLoop index length).body.events) :
    event ∈ each.receiver.events ∨ event ∈ each.body.events := by
  obtain ⟨receiver, params, ⟨span, body⟩⟩ := each
  simp only [List.mem_append] at h
  rcases h with ((init | test) | update) | inside
  · simp only [toLoop, eventsOfForInit, varOf, variableOf, property, Declaration.events, eventsOfDeclarators,
      eventsOfOption, Expr.events, Expr.ident, Expr.zero, List.mem_cons, List.mem_append, List.not_mem_nil,
      or_false] at init
    rcases init with rfl | rfl | rfl | rfl | rfl | rfl | rfl | receiver | rfl | rfl
    all_goals first | exact .inl receiver | cases kind
  · simp only [toLoop, eventsOfOption, Expr.events, Expr.ident, List.mem_cons, List.mem_append,
      List.not_mem_nil, or_false] at test
    rcases test with rfl | (rfl | rfl) | rfl | rfl <;> cases kind
  · simp only [toLoop, eventsOfOption, Expr.events, Expr.ident, List.mem_cons, List.not_mem_nil,
      or_false] at update
    rcases update with rfl | rfl | rfl <;> cases kind
  · simp only [toLoop, Stmt.events, Block.events, eventsOfStmts_append, List.mem_cons, List.mem_append] at inside
    rcases inside with rfl | rfl | binding | body
    · cases kind
    · cases kind
    · exact .inl (mem_events_bindings kind binding)
    · exact .inr (List.mem_cons_of_mem _ body)

end ForEach

/-- The receiver and the function are met with the statement. -/
theorem ForEach.Written.mem_events {each : ForEach} {s : Stmt} (written : each.Written s) {event : Event}
    (h : event ∈ each.receiver.events ∨ event ∈ each.body.events) : event ∈ s.events := by
  cases written with
  | mk name this stays =>
    simp only [Stmt.events, Expr.events, eventsOfExprs, List.mem_cons, List.mem_append]
    rcases h with receiver | body
    · exact .inr (.inr (.inl (.inr (.inl receiver))))
    · exact .inr (.inr (.inr (.inl (.inr (.inr (.inr body))))))

/-- All loops inside the loop are loops of the statement. -/
theorem ForEach.Written.mem_loops {each : ForEach} {s : Stmt} (written : each.Written s) {index length : String}
    {l : ForLoop} (h : l ∈ (Stmt.forLoop (each.toLoop index length)).innerLoops) : l ∈ loopsOf s.events := by
  simp only [Stmt.innerLoops, ← loopsOf_append, mem_loopsOf] at h ⊢
  exact written.mem_events (mem_events_toLoop rfl h)

/-! ## Related lists -/

theorem exists_of_mem_left {α β : Type} {R : α → β → Prop} {xs : List α} {ys : List β} (h : List.Forall₂ R xs ys)
    {x : α} (hx : x ∈ xs) : ∃ y ∈ ys, R x y := by
  induction h with
  | nil => cases hx
  | cons first _ ih =>
    rcases List.mem_cons.mp hx with rfl | later
    · exact ⟨_, List.mem_cons_self .., first⟩
    · obtain ⟨y, hy, r⟩ := ih later
      exact ⟨y, List.mem_cons_of_mem _ hy, r⟩

theorem exists_of_mem_right {α β : Type} {R : α → β → Prop} {xs : List α} {ys : List β} (h : List.Forall₂ R xs ys)
    {y : β} (hy : y ∈ ys) : ∃ x ∈ xs, R x y :=
  exists_of_mem_left h.flip hy

/-! ## Loops with given names -/

/-- The names of a pair, one after the other. -/
def bothNames (pair : String × String) : List String := [pair.1, pair.2]

/-- The names of the variables of the loops: the `k`-th loop that is made gets the `k`-th pair. -/
abbrev Naming := Nat → String × String

namespace Naming

/-- Puts a loop with the next pair of names in place of a statement that is the idiom. -/
def convertStmt (names : Naming) (s : Stmt) (k : Nat) : Stmt × Nat :=
  match ForEach.ofStmt? s with
  | none => (s, k)
  | some each => (.forLoop (each.toLoop (names k).1 (names k).2), k + 1)

theorem weight_convertStmt (names : Naming) (s : Stmt) (k : Nat) :
    (names.convertStmt s k).1.weight ≤ s.weight := by
  unfold convertStmt
  split
  · exact Nat.le_refl _
  · rename_i each found
    exact ForEach.weight_toLoop_le found _ _

/-- A conversion with given names, as hooks. -/
def hooks (names : Naming) : Hooks Nat :=
  { Hooks.idle Nat with
    stmt := names.convertStmt
    stmt_le := names.weight_convertStmt }

/-- The first `n` pairs. -/
def firstPairs (names : Naming) (n : Nat) : List (String × String) := (List.range n).map names

theorem firstPairs_succ (names : Naming) (n : Nat) :
    names.firstPairs (n + 1) = names.firstPairs n ++ [names n] := by
  rw [firstPairs, List.range_succ, List.map_append, List.map_singleton, firstPairs]

end Naming

section Order

/-! In what follows, `mark` tells the loops that a conversion makes from the others by their variables. -/

variable {names : Naming} {mark : List String → Bool}

/-- On the way from `k` to `k'`, `n` loops are made, and if `n` is zero, then nothing changes. If no loop that
was there before is marked, and all that are made are, then the marked ones that are there afterwards have the
names of the numbers from `k` on, in this order. -/
structure Numbered (names : Naming) (mark : List String → Bool) (n : Nat) (same : Prop)
    (before after : List ForLoop) (k k' : Nat) : Prop where
  count : k' = k + n
  same : n = 0 → same
  order : (∀ l ∈ before, mark l.declared = false) →
    (∀ j < k', mark (bothNames (names j)) = true) →
    List.Forall₂ ForLoop.Counts (after.filter fun l => mark l.declared) ((List.range' k n).map names)

namespace Numbered

variable {n n₁ n₂ k k₁ k₂ : Nat} {same same₁ same₂ : Prop} {before₁ before₂ after₁ after₂ : List ForLoop}

theorem leaf (h : same) : Numbered names mark 0 same [] [] k k :=
  ⟨rfl, fun _ => h, fun _ _ => .nil⟩

/-- First one part, then the next. -/
theorem append (h₁ : Numbered names mark n₁ same₁ before₁ after₁ k k₁)
    (h₂ : Numbered names mark n₂ same₂ before₂ after₂ k₁ k₂) :
    Numbered names mark (n₁ + n₂) (same₁ ∧ same₂) (before₁ ++ before₂) (after₁ ++ after₂) k k₂ where
  count := by rw [h₂.count, h₁.count, Nat.add_assoc]
  same none := ⟨h₁.same (by omega), h₂.same (by omega)⟩
  order unmarked marked := by
    have first := h₁.order (fun l hl => unmarked l (List.mem_append_left _ hl))
      fun j hj => marked j (by have := h₂.count; omega)
    have later := h₂.order (fun l hl => unmarked l (List.mem_append_right _ hl)) marked
    rw [List.filter_append, ← List.range'_append_1, List.map_append, ← h₁.count]
    exact List.rel_append first later

theorem mono (h : Numbered names mark n same₁ before₁ after₁ k k₁) (imp : same₁ → same₂) :
    Numbered names mark n same₂ before₁ after₁ k k₁ :=
  ⟨h.count, fun none => imp (h.same none), h.order⟩

end Numbered

/-- The loops have the same variables, and the same test and update if nothing is converted in these. -/
structure ForLoop.SameHead (l l' : ForLoop) : Prop where
  declared : l'.declared = l.declared
  test : conversionsOfOption l.test = 0 → l'.test = l.test
  update : conversionsOfOption l.update = 0 → l'.update = l.update

theorem ForLoop.Counts.of_sameHead {l l' : ForLoop} {pair : String × String} (h : l.Counts pair)
    (same : l.SameHead l') : l'.Counts pair where
  declared := same.declared.trans h.declared
  test := (same.test (by simp [h.test, conversionsOfOption, Expr.conversions, Expr.ident])).trans h.test
  update := (same.update (by simp [h.update, conversionsOfOption, Expr.conversions, Expr.ident])).trans h.update

/-- The law that loops are made one after the other, in the order of a visit. -/
def inOrder (names : Naming) (mark : List String → Bool) : Law Nat where
  expr e k r :=
    Numbered names mark e.conversions (r.1 = e) (loopsOf e.events) (loopsOf r.1.events) k r.2
  exprs es k r :=
    Numbered names mark (conversionsOfExprs es) (r.1 = es) (loopsOf (eventsOfExprs es))
      (loopsOf (eventsOfExprs r.1)) k r.2
  elements es k r :=
    Numbered names mark (conversionsOfElements es) (r.1 = es) (loopsOf (eventsOfElements es))
      (loopsOf (eventsOfElements r.1)) k r.2
  properties ps k r :=
    Numbered names mark (conversionsOfProperties ps) (r.1 = ps) (loopsOf (eventsOfProperties ps))
      (loopsOf (eventsOfProperties r.1)) k r.2
  function f k r :=
    Numbered names mark f.conversions (r.1 = f) (loopsOf (Expr.function f).events)
      (loopsOf (Expr.function r.1).events) k r.2
  block b k r :=
    Numbered names mark b.conversions (r.1 = b) (loopsOf b.events) (loopsOf r.1.events) k r.2
  stmts ss k r :=
    Numbered names mark (conversionsOfStmts ss) (r.1 = ss) (loopsOf (eventsOfStmts ss))
      (loopsOf (eventsOfStmts r.1)) k r.2
  declarators ds k r :=
    (r.1.map fun d => d.id.name) = (ds.map fun d => d.id.name) ∧
      Numbered names mark (conversionsOfDeclarators ds) (r.1 = ds) (loopsOf (eventsOfDeclarators ds))
        (loopsOf (eventsOfDeclarators r.1)) k r.2
  option e k r :=
    Numbered names mark (conversionsOfOption e) (r.1 = e) (loopsOf (eventsOfOption e))
      (loopsOf (eventsOfOption r.1)) k r.2
  forInit i k r :=
    declaredIn r.1 = declaredIn i ∧
      Numbered names mark (conversionsOfForInit i) (r.1 = i) (loopsOf (eventsOfForInit i))
        (loopsOf (eventsOfForInit r.1)) k r.2
  branch s k r :=
    Numbered names mark (conversionsOfBranch s) (r.1 = s) (loopsOf (eventsOfBranch s))
      (loopsOf (eventsOfBranch r.1)) k r.2
  inside s k r :=
    Option.Rel ForLoop.SameHead s.loop? r.1.loop? ∧
      Numbered names mark s.conversionsInside (r.1 = s) s.innerLoops r.1.innerLoops k r.2
  stmt s k r :=
    Numbered names mark s.conversions (r.1 = s) (loopsOf s.events) (loopsOf r.1.events) k r.2

/-- A statement that stays keeps its own loop unmarked. -/
theorem Numbered.unchanged {s s' : Stmt} {n k k' : Nat} {same : Prop}
    (head : Option.Rel ForLoop.SameHead s.loop? s'.loop?)
    (h : Numbered names mark n same s.innerLoops s'.innerLoops k k') :
    Numbered names mark n same (loopsOf s.events) (loopsOf s'.events) k k' where
  count := h.count
  same := h.same
  order unmarked marked := by
    rw [s'.loops_events, List.filter_append]
    rw [s.loops_events] at unmarked
    have own : s'.loop?.toList.filter (fun l => mark l.declared) = [] := by
      cases hs : s.loop? with
      | none =>
        rw [hs] at head
        cases hs' : s'.loop? with
        | none => rfl
        | some l' => rw [hs'] at head; cases head
      | some l =>
        rw [hs] at head
        cases hs' : s'.loop? with
        | none => rfl
        | some l' =>
          rw [hs'] at head
          cases head with
          | some same =>
            have := unmarked l (by simp [hs])
            simp [same.declared, this]
    rw [own, List.nil_append]
    exact h.order (fun l hl => unmarked l (List.mem_append_right _ hl)) marked

/-- A statement that is converted becomes the next loop, and then the loops inside follow. -/
theorem Numbered.converted {s s' : Stmt} {each : ForEach} {same : Prop} {k k' : Nat} (written : each.Written s)
    (head : Option.Rel ForLoop.SameHead (some (each.toLoop (names k).1 (names k).2)) s'.loop?)
    (h : Numbered names mark (each.copies * each.receiver.conversions + each.body.conversions) same
      (Stmt.forLoop (each.toLoop (names k).1 (names k).2)).innerLoops s'.innerLoops (k + 1) k') :
    Numbered names mark s.conversions (s' = s) (loopsOf s.events) (loopsOf s'.events) k k' := by
  rw [Stmt.conversions_of_some (ForEach.ofStmt?_of_written written)]
  refine ⟨by rw [h.count]; omega, fun none => by omega, fun unmarked marked => ?_⟩
  cases hs' : s'.loop? with
  | none => rw [hs'] at head; cases head
  | some l =>
    rw [hs'] at head
    cases head with
    | some same =>
      have counts : l.Counts (names k) := (each.counts_toLoop _ _).of_sameHead same
      have made : mark l.declared = true := by
        rw [counts.declared]
        exact marked k (by have := h.count; omega)
      have rest := h.order (fun l hl => unmarked l (written.mem_loops hl)) marked
      rw [s'.loops_events, hs', Option.toList_some, List.singleton_append,
        List.filter_cons_of_pos (p := fun l : ForLoop => mark l.declared) made, Nat.add_assoc, Nat.add_comm 1,
        List.range'_succ, List.map_cons]
      exact .cons counts rest

theorem inOrder_closed : (inOrder names mark).Closed names.convertStmt := by
  constructor
  all_goals simp only [inOrder, Expr.conversions, conversionsOfExprs, conversionsOfElements,
    conversionsOfProperties, Function.conversions, Block.conversions, conversionsOfStmts,
    conversionsOfDeclarators, conversionsOfOption, conversionsOfForInit, conversionsOfBranch,
    Stmt.conversionsInside, Expr.events, eventsOfExprs, eventsOfElements, eventsOfProperties, eventsOfStmts,
    eventsOfDeclarators, eventsOfOption, eventsOfForInit, eventsOfBranch, loops_function, loops_block,
    loops_declaration, innerLoops_functionDecl, innerLoops_whileLoop, innerLoops_ifElse, loopsOf_cons,
    loopsOf_append, loopsOf_nil, Event.loop?, Option.toList_none, List.nil_append]
  all_goals intros
  case change s k r h =>
    obtain ⟨head, h⟩ := h
    unfold Naming.convertStmt at head h
    split at head
    · rename_i found
      rw [found] at h
      rw [Stmt.conversions_of_none found]
      exact h.unchanged head
    · rename_i each found
      rw [found] at h
      rw [ForEach.conversionsInside_toLoop] at h
      exact h.converted (ForEach.written_of_ofStmt? found) head
  case this | identifier | literal | unknown | exprs_nil | elements_nil | properties_nil | stmts_nil | option_none
      | branch_none =>
    exact .leaf trivial
  case declarators_nil | forInit_none => exact ⟨trivial, .leaf trivial⟩
  case brk | cont | empty | unknownStmt => exact ⟨.none, .leaf trivial⟩
  case unary h | sequence h | update h | functionExpr h | object h | array h | elements_hole h | option_some h
      | branch_some h =>
    exact h.mono fun e => by rw [e]
  case assignment h₁ h₂ | binary h₁ h₂ | call h₁ h₂ | new h₁ h₂ | member h₁ h₂ | exprs_cons h₁ h₂
      | elements_cons h₁ h₂ | stmts_cons h₁ h₂ =>
    exact (h₁.append h₂).mono fun e => by rw [e.1, e.2]
  case conditional h₁ h₂ h₃ | properties_cons h₁ h₂ h₃ =>
    exact ((h₁.append h₂).append h₃).mono fun e => by rw [e.1.1, e.1.2, e.2]
  case declarators_cons h₁ h₂ =>
    exact ⟨by rw [List.map_cons, h₂.1, List.map_cons], (h₁.append h₂.2).mono fun e => by rw [e.1, e.2]⟩
  case forInit_declaration d _ _ h => cases d; exact ⟨h.1, h.2.mono fun e => by rw [e]⟩
  case forInit_expression h => exact ⟨rfl, h.mono fun e => by rw [e]⟩
  case functions f _ _ _ h₁ h₂ => cases f; exact (h₁.append h₂).mono fun e => by rw [e.1, e.2]
  case blocks b _ _ h => cases b; exact h.mono fun e => by rw [e]
  -- statements
  case declaration d _ _ h =>
    refine ⟨.none, ?_⟩
    simp only [Stmt.innerLoops, Stmt.events, loopsOf_cons, loops_declaration, Event.loop?, Option.toList_none,
      List.nil_append]
    cases d
    exact h.2.mono fun e => by rw [e]
  case blockStmt h =>
    refine ⟨.none, ?_⟩
    simp only [Stmt.innerLoops, Stmt.events, loopsOf_cons, loops_block, Event.loop?, Option.toList_none,
      List.nil_append]
    exact h.mono fun e => by rw [e]
  case ret h | throw h | expression h => exact ⟨.none, h.mono fun e => by rw [e]⟩
  case functionDecl f _ _ _ h₁ h₂ =>
    cases f
    exact ⟨.none, (h₁.append h₂).mono fun e => by rw [e.1, e.2]⟩
  case whileLoop l _ _ _ h₁ h₂ =>
    cases l
    exact ⟨.none, (h₁.append h₂).mono fun e => by rw [e.1, e.2]⟩
  case ifElse i _ _ _ _ h₁ h₂ h₃ =>
    cases i
    exact ⟨.none, ((h₁.append h₂).append h₃).mono fun e => by rw [e.1.1, e.1.2, e.2]⟩
  case forLoop l _ _ _ _ _ h₁ h₂ h₃ h₄ =>
    cases l
    exact ⟨.some ⟨h₁.1, h₂.same, h₃.same⟩,
      (((h₁.2.append h₂).append h₃).append h₄).mono fun e => by rw [e.1.1.1, e.1.1.2, e.1.2, e.2]⟩

end Order

/-! ## The loops of a walk -/

/-- As many loops are made as there are conversions. -/
theorem walkStmts_count (names : Naming) (ss : List Stmt) :
    (walkStmts names.hooks ss 0).2 = conversionsOfStmts ss := by
  have closed : (inOrder names fun _ => true).Closed names.hooks.stmt := inOrder_closed
  have := ((closed.holds (Hooks.onStatements_idle _ _)).stmts ss 0).count
  rwa [Nat.zero_add] at this

/-- If the names that are given in advance are not the variables of loops that are there already, then these
names are found in the heads of loops in the order in which they are given. -/
theorem counts_walkStmts (names : Naming) (ss : List Stmt)
    (other : ∀ l ∈ loopsOf (eventsOfStmts ss),
      l.declared ∉ (names.firstPairs (conversionsOfStmts ss)).map bothNames) :
    List.Forall₂ ForLoop.Counts
      ((loopsOf (eventsOfStmts (walkStmts names.hooks ss 0).1)).filter fun l =>
        l.declared ∈ (names.firstPairs (conversionsOfStmts ss)).map bothNames)
      (names.firstPairs (conversionsOfStmts ss)) := by
  let mark : List String → Bool := fun declared =>
    declared ∈ (names.firstPairs (conversionsOfStmts ss)).map bothNames
  have closed : (inOrder names mark).Closed names.hooks.stmt := inOrder_closed
  have order := ((closed.holds (Hooks.onStatements_idle _ _)).stmts ss 0).order
    (fun l hl => decide_eq_false (other l hl)) fun j hj => by
      rw [walkStmts_count] at hj
      exact decide_eq_true (List.mem_map_of_mem (List.mem_map_of_mem (List.mem_range.mpr hj)))
  rwa [← List.range_eq_range'] at order

end IndexedLoop
