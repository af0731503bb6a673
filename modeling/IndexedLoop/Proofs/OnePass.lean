import IndexedLoop.Converter
import IndexedLoop.Proofs.Walk
import IndexedLoop.Tree.Event

/-!
# One pass converts everything

After a conversion no statement of the program, at any depth, is the idiom (`convert_leaves_no_forEach`).
A walk goes on inside the loop that it puts in place of a statement, so what is left to show is that a
statement which is not the idiom does not become it when the parts of it are converted. The recognizer
sees four things of a call: the name of the property, that the first argument is a function with plain
parameters, what follows it, and whether the function has a `return` of its own. A walk keeps all of
them (`Expr.Alike`), the last one because a statement is converted only if no `return` would leave its
function (`returns_convertStmt`).
-/

namespace IndexedLoop

open Conversion

/-! ## Returns -/

theorem anyReturns_append (xs ys : List Stmt) :
    anyReturns (xs ++ ys) = (anyReturns xs || anyReturns ys) := by
  induction xs with
  | nil => simp [anyReturns]
  | cons s rest ih => simp only [List.cons_append, anyReturns, ih, Bool.or_assoc]

theorem returns_block (b : Block) : (Stmt.block b).returns = anyReturns b.body := by
  cases b
  rfl

theorem returns_forLoop (l : ForLoop) : (Stmt.forLoop l).returns = l.body.returns := by
  cases l
  rfl

theorem returns_whileLoop (l : WhileLoop) : (Stmt.whileLoop l).returns = l.body.returns := by
  cases l
  rfl

theorem returns_ifElse (i : IfElse) :
    (Stmt.ifElse i).returns = (i.consequent.returns || i.alternate.any Stmt.returns) := by
  obtain ⟨_, _, _, alternate⟩ := i
  cases alternate <;> simp [Stmt.returns]

namespace ForEach

theorem anyReturns_bindings (receiver : Expr) (index : String) (k : Nat) (ids : List Identifier) :
    anyReturns (bindings receiver index k ids) = false := by
  induction ids generalizing k with
  | nil => simp only [bindings, anyReturns]
  | cons id rest ih => simp only [bindings, anyReturns, Stmt.returns, ih, Bool.or_false]

/-- The callee is the property `forEach` of something. -/
def isForEachCallee : Expr → Bool
  | .member _ _ property access => isForEachName access property
  | _ => false

/-- The argument is a function that can become the body of a loop. -/
def isCallback : Expr → Bool
  | .function fn => !anyReturns fn.body.body && (identifiers? fn.params).isSome
  | _ => false

/-- The arguments are such a function, and `this` at most. -/
def isCallbackList : List Expr → Bool
  | first :: rest => isCallback first && isThisArgument rest
  | [] => false

theorem isSome_ofCall? (callee : Expr) (arguments : List Expr) :
    (ofCall? callee arguments).isSome = (isForEachCallee callee && isCallbackList arguments) := by
  unfold ofCall?
  split
  · rename_i span receiver property access fn rest
    simp only [isForEachCallee, isCallbackList, isCallback]
    split
    · rename_i h
      simp only [Bool.and_eq_true, Bool.not_eq_true'] at h
      simp [h.1.1, h.1.2, h.2]
    · rename_i h
      simp only [Bool.and_eq_true, Bool.not_eq_true', not_and, Bool.not_eq_false] at h
      cases hn : isForEachName access property <;> cases ht : isThisArgument rest <;>
        simp_all
  · rename_i h
    cases callee with
    | member span receiver property access =>
      cases arguments with
      | nil => simp [isCallbackList]
      | cons first rest =>
        cases first with
        | function fn => exact absurd rfl (h _ _ _ _ _ _ rfl)
        | _ => simp [isCallbackList, isCallback]
    | _ => simp [isForEachCallee]

theorem body_of_ofStmt? {s : Stmt} {each : ForEach} (h : ofStmt? s = some each) :
    s.returns = false ∧ anyReturns each.body.body = false := by
  cases s with
  | expression span expr =>
    refine ⟨rfl, ?_⟩
    cases expr with
    | call _ callee arguments =>
      simp only [ofStmt?, ofExpr?] at h
      unfold ofCall? at h
      split at h
      · split at h
        · rename_i hc
          obtain ⟨params, -, rfl⟩ := Option.map_eq_some_iff.mp h
          simp only [Bool.and_eq_true, Bool.not_eq_true'] at hc
          exact hc.2
        · cases h
      · cases h
    | _ => cases h
  | _ => cases h

end ForEach

/-- The loop has a `return` of its own if the statement has: neither has one. -/
theorem returns_convertStmt (config : Config) (s : Stmt) (st : Conversion) :
    (convertStmt config s st).1.returns = s.returns := by
  unfold convertStmt
  split
  · rfl
  · rename_i each h
    obtain ⟨hs, hb⟩ := ForEach.body_of_ofStmt? h
    rw [hs, returns_forLoop]
    simp only [ForEach.toLoop, returns_block, anyReturns_append, ForEach.anyReturns_bindings, hb,
      Bool.or_false]

/-! ## What the recognizer sees -/

/-- Two expressions that the recognizer cannot tell apart, wherever in a call they stand. -/
structure Expr.Alike (e f : Expr) : Prop where
  identifier (id : Identifier) : f = .identifier id ↔ e = .identifier id
  literal (lit : Literal) : f = .literal lit ↔ e = .literal lit
  this (span : Span) : f = .this span ↔ e = .this span
  callee : ForEach.isForEachCallee f = ForEach.isForEachCallee e
  callback : ForEach.isCallback f = ForEach.isCallback e
  call : ForEach.ofExpr? e = none → ForEach.ofExpr? f = none

namespace Expr

/-- The recognizer sees nothing of the expression but that it is none of those it looks for. -/
def isPlain : Expr → Bool
  | .assignment .. | .binary .. | .unary .. | .sequence .. | .update .. | .new .. | .conditional ..
  | .object .. | .array .. | .unknown _ => true
  | _ => false

theorem Alike.refl (e : Expr) : e.Alike e :=
  ⟨fun _ => Iff.rfl, fun _ => Iff.rfl, fun _ => Iff.rfl, rfl, rfl, id⟩

theorem Alike.of_isPlain {e f : Expr} (he : e.isPlain = true) (hf : f.isPlain = true) : e.Alike f := by
  cases e <;> cases he <;> cases f <;> cases hf
  all_goals exact ⟨by simp, by simp, by simp, rfl, rfl, fun _ => rfl⟩

/-- The name of a property is the same if the property is alike. -/
theorem Alike.isForEachName {e f : Expr} (h : e.Alike f) (access : Access) :
    ForEach.isForEachName access f = ForEach.isForEachName access e := by
  cases e with
  | identifier id => rw [(h.identifier id).mpr rfl]
  | literal lit => rw [(h.literal lit).mpr rfl]
  | _ =>
    cases f with
    | identifier id => cases (h.identifier id).mp rfl
    | literal lit => cases (h.literal lit).mp rfl
    | _ => cases access <;> rfl

end Expr

/-- Lists of expressions that the recognizer cannot tell apart. -/
structure ExprsAlike (es fs : List Expr) : Prop where
  length : fs.length = es.length
  identifiers : identifiers? fs = identifiers? es
  this : ForEach.isThisArgument fs = ForEach.isThisArgument es
  callback : ForEach.isCallbackList fs = ForEach.isCallbackList es

theorem ExprsAlike.nil : ExprsAlike [] [] := ⟨rfl, rfl, rfl, rfl⟩

theorem isThisArgument_cons {e f : Expr} {es fs : List Expr} (h : e.Alike f)
    (hl : fs.length = es.length) :
    ForEach.isThisArgument (f :: fs) = ForEach.isThisArgument (e :: es) := by
  match es, fs, hl with
  | [], [], _ =>
    cases e with
    | this span => rw [(h.this span).mpr rfl]
    | _ =>
      cases f with
      | this span => cases (h.this span).mp rfl
      | _ => rfl
  | _ :: _, _ :: _, _ => simp only [ForEach.isThisArgument]

theorem ExprsAlike.cons {e f : Expr} {es fs : List Expr} (h : e.Alike f) (hs : ExprsAlike es fs) :
    ExprsAlike (e :: es) (f :: fs) := by
  refine ⟨by simp [hs.length], ?_, isThisArgument_cons h hs.length, ?_⟩
  · cases e with
    | identifier id => rw [(h.identifier id).mpr rfl]; simp only [identifiers?, hs.identifiers]
    | _ =>
      cases f with
      | identifier id => cases (h.identifier id).mp rfl
      | _ => rfl
  · simp only [ForEach.isCallbackList, h.callback, hs.this]

/-- A call stays what it is if its parts stay alike. -/
theorem isNone_ofCall? {callee callee' : Expr} {arguments arguments' : List Expr}
    (hc : callee.Alike callee') (ha : ExprsAlike arguments arguments')
    (h : ForEach.ofCall? callee arguments = none) : ForEach.ofCall? callee' arguments' = none := by
  rw [← Option.not_isSome_iff_eq_none, ForEach.isSome_ofCall?] at h ⊢
  rwa [hc.callee, ha.callback]

theorem Alike.of_call {span : Span} {callee callee' : Expr} {arguments arguments' : List Expr}
    (hc : callee.Alike callee') (ha : ExprsAlike arguments arguments') :
    (Expr.call span callee arguments).Alike (.call span callee' arguments') :=
  ⟨by simp, by simp, by simp, rfl, rfl, isNone_ofCall? hc ha⟩

theorem Alike.of_member {span : Span} {object object' property property' : Expr} {access : Access}
    (hp : property.Alike property') :
    (Expr.member span object property access).Alike (.member span object' property' access) :=
  ⟨by simp, by simp, by simp, hp.isForEachName access, rfl, fun _ => rfl⟩

theorem Alike.of_function {f g : Function}
    (h : ForEach.isCallback (.function g) = ForEach.isCallback (.function f)) :
    (Expr.function f).Alike (.function g) :=
  ⟨by simp, by simp, by simp, rfl, h, fun _ => rfl⟩

/-! ## Statements at any depth -/

/-- No statement among the events is the idiom. -/
def Quiet (events : List Event) : Prop :=
  ∀ s, Event.stmt s ∈ events → ForEach.ofStmt? s = none

@[simp]
theorem quiet_nil : Quiet [] := fun _ h => by cases h

@[simp]
theorem quiet_append (xs ys : List Event) : Quiet (xs ++ ys) ↔ Quiet xs ∧ Quiet ys := by
  simp only [Quiet, List.mem_append]
  exact ⟨fun h => ⟨fun s hs => h s (.inl hs), fun s hs => h s (.inr hs)⟩,
    fun h s hs => hs.elim (h.1 s) (h.2 s)⟩

@[simp]
theorem quiet_stmt (s : Stmt) (xs : List Event) :
    Quiet (.stmt s :: xs) ↔ ForEach.ofStmt? s = none ∧ Quiet xs := by
  simp [Quiet]

/-- Only statements matter. -/
theorem quiet_other {x : Event} (hx : ∀ s, x ≠ .stmt s) (xs : List Event) :
    Quiet (x :: xs) ↔ Quiet xs := by
  simp only [Quiet, List.mem_cons]
  exact ⟨fun h s hs => h s (.inr hs), fun h s hs => hs.elim (fun e => absurd e.symm (hx s)) (h s)⟩

theorem quiet_identifiers (ids : List Identifier) : Quiet (ids.map .identifier) := by
  intro s hs
  obtain ⟨_, -, h⟩ := List.mem_map.mp hs
  cases h

/-- The events of a branch that may be absent. -/
def eventsOfBranch : Option Stmt → List Event
  | none => []
  | some s => s.events

theorem quiet_events_ifElse (i : IfElse) :
    Quiet (Stmt.ifElse i).events
      ↔ Quiet i.test.events ∧ Quiet i.consequent.events ∧ Quiet (eventsOfBranch i.alternate) := by
  obtain ⟨_, _, _, alternate⟩ := i
  cases alternate <;>
    simp [Stmt.events, ForEach.ofStmt?, quiet_other, eventsOfBranch]

/-! ## The law of a conversion -/

/-- What a conversion keeps of a node, and that it leaves no statement that is the idiom. A statement
whose hook was called is not the idiom itself. -/
def settled : Law Conversion where
  expr e _ r := e.Alike r.1 ∧ Quiet r.1.events
  exprs es _ r := ExprsAlike es r.1 ∧ Quiet (eventsOfExprs r.1)
  elements _ _ r := Quiet (eventsOfElements r.1)
  properties _ _ r := Quiet (eventsOfProperties r.1)
  function f _ r := ForEach.isCallback (.function r.1) = ForEach.isCallback (.function f) ∧
    Quiet (Expr.function r.1).events
  block b _ r := anyReturns r.1.body = anyReturns b.body ∧ Quiet r.1.events
  stmts ss _ r := anyReturns r.1 = anyReturns ss ∧ Quiet (eventsOfStmts r.1)
  declarators _ _ r := Quiet (eventsOfDeclarators r.1)
  option _ _ r := Quiet (eventsOfOption r.1)
  forInit _ _ r := Quiet (eventsOfForInit r.1)
  branch s _ r := r.1.any Stmt.returns = s.any Stmt.returns ∧ Quiet (eventsOfBranch r.1)
  inside s _ r := r.1.returns = s.returns ∧ (ForEach.ofStmt? s = none → Quiet r.1.events)
  stmt s _ r := r.1.returns = s.returns ∧ Quiet r.1.events

theorem settled_closed (config : Config) : settled.Closed (convertStmt config) := by
  constructor
  all_goals simp only [settled]
  all_goals intros
  -- expressions: those the recognizer looks at first
  case call hc ha =>
    exact ⟨Alike.of_call hc.1 ha.1, by simp [Expr.events, quiet_other, hc.2, ha.2]⟩
  case member ho hp =>
    exact ⟨Alike.of_member hp.1, by simp [Expr.events, quiet_other, ho.2, hp.2]⟩
  case functionExpr hf => exact ⟨Alike.of_function hf.1, hf.2⟩
  case this | identifier | literal | unknown => exact ⟨.refl _, by simp [Expr.events, quiet_other]⟩
  case assignment hl hr | binary hl hr | new hl hr =>
    exact ⟨.of_isPlain rfl rfl, by simp [Expr.events, quiet_other, hl.2, hr.2]⟩
  case unary h | sequence h | update h | array h | object h =>
    exact ⟨.of_isPlain rfl rfl, by simp [Expr.events, quiet_other, h]⟩
  case conditional ht hc ha =>
    exact ⟨.of_isPlain rfl rfl, by simp [Expr.events, quiet_other, ht.2, hc.2, ha.2]⟩
  -- lists and parts
  case exprs_nil => exact ⟨.nil, by simp [eventsOfExprs]⟩
  case exprs_cons he hs => exact ⟨.cons he.1 hs.1, by simp [eventsOfExprs, he.2, hs.2]⟩
  case elements_nil | elements_hole | elements_cons => simp_all [eventsOfElements]
  case properties_nil | properties_cons => simp_all [eventsOfProperties]
  case declarators_nil | declarators_cons => simp_all [eventsOfDeclarators, quiet_other]
  case option_none | option_some => simp_all [eventsOfOption]
  case forInit_none | forInit_declaration | forInit_expression =>
    simp_all [eventsOfForInit, Declaration.events, quiet_other]
  case functions hp hb =>
    refine ⟨by simp only [ForEach.isCallback, hp.1.identifiers, hb.1], ?_⟩
    simp [Expr.events, quiet_other, hp.2, hb.2, quiet_identifiers]
  case blocks hs => exact ⟨hs.1, by simp [Block.events, quiet_other, hs.2]⟩
  case stmts_nil => exact ⟨trivial, by simp [eventsOfStmts]⟩
  case stmts_cons hs hr =>
    exact ⟨by simp only [anyReturns, hs.1, hr.1], by simp [eventsOfStmts, hs.2, hr.2]⟩
  case branch_none => exact ⟨trivial, by simp [eventsOfBranch]⟩
  case branch_some hs => exact ⟨by simp [hs.1], hs.2⟩
  -- statements
  case expression he =>
    exact ⟨rfl, fun hn => by
      simp only [Stmt.events, quiet_stmt]; exact ⟨he.1.call hn, he.2⟩⟩
  case change hs =>
    refine ⟨hs.1.trans (returns_convertStmt ..), hs.2 ?_⟩
    unfold convertStmt
    split
    · assumption
    · rfl
  case declaration h =>
    exact ⟨rfl, fun _ => by
      simp [Stmt.events, Declaration.events, ForEach.ofStmt?, quiet_other, h]⟩
  case functionDecl hp hb =>
    exact ⟨rfl, fun _ => by
      simp [Stmt.events, ForEach.ofStmt?, quiet_other, hp.2, hb.2]⟩
  case blockStmt hb =>
    exact ⟨by rw [returns_block, returns_block, hb.1], fun _ => by
      simp [Stmt.events, ForEach.ofStmt?, hb.2]⟩
  case ret h =>
    exact ⟨rfl, fun _ => by simp [Stmt.events, ForEach.ofStmt?, h]⟩
  case forLoop hi ht hu hb =>
    exact ⟨by rw [returns_forLoop, returns_forLoop, hb.1], fun _ => by
      simp [Stmt.events, ForEach.ofStmt?, quiet_other, hi, ht, hu, hb.2]⟩
  case whileLoop ht hb =>
    exact ⟨by rw [returns_whileLoop, returns_whileLoop, hb.1], fun _ => by
      simp [Stmt.events, ForEach.ofStmt?, quiet_other, ht.2, hb.2]⟩
  case ifElse ht hc ha =>
    exact ⟨by rw [returns_ifElse, returns_ifElse, hc.1, ha.1], fun _ => by
      simp [quiet_events_ifElse, ht.2, hc.2, ha.2]⟩
  case throw h =>
    exact ⟨rfl, fun _ => by simp [Stmt.events, ForEach.ofStmt?, h.2]⟩
  case brk | cont | empty | unknownStmt =>
    exact ⟨trivial, fun _ => by simp [Stmt.events, ForEach.ofStmt?]⟩

/-- What a conversion leaves of statements holds no statement that is the idiom. -/
theorem quiet_walkStmts (config : Config) (ss : List Stmt) (st : Conversion) :
    Quiet (eventsOfStmts (walkStmts (hooks config) ss st).1) := by
  have closed : settled.Closed (hooks config).stmt := settled_closed config
  exact ((closed.holds (Hooks.onStatements_idle _ _)).stmts ss st).2

/-- After a conversion, of a program or of statements, no statement at any depth holds a call that is
the idiom, whatever the converter did before. -/
theorem convert_leaves_no_forEach (c : Converter) :
    (∀ (program : Program) (span callSpan : Span) (callee : Expr) (arguments : List Expr),
      .stmt (.expression span (.call callSpan callee arguments)) ∈ (c.convert program).1.events →
      ForEach.ofCall? callee arguments = none) ∧
    (∀ (stmts : List Stmt) (span callSpan : Span) (callee : Expr) (arguments : List Expr),
      .stmt (.expression span (.call callSpan callee arguments)) ∈
        eventsOfStmts (c.convertStmts stmts).1 →
      ForEach.ofCall? callee arguments = none) := by
  refine ⟨fun program span callSpan callee arguments h => ?_,
    fun stmts span callSpan callee arguments h => ?_⟩
  · simp only [Program.events, List.mem_cons, reduceCtorEq, false_or] at h
    exact quiet_walkStmts c.config _ _ _ h
  · exact quiet_walkStmts c.config _ _ _ h

end IndexedLoop
