import IndexedLoop.Proofs.HookCalls
import IndexedLoop.Proofs.Origins
import IndexedLoop.Proofs.Untouched
import IndexedLoop.Tree.Edit

/-!
# Walks that empty statements

A walk whose hook puts an empty statement in place of each statement of some kinds meets what a visit meets
outside of these statements (`outside`). It leaves no statement of these kinds, and what it leaves of a node is
visited as the node was, up to the statements that are now empty (`Walked`). Each kind of node is walked so if its
parts are, one after the other; the hook enters in one place only (`Walked.stmt`).
-/

namespace IndexedLoop

variable {σ : Type}

/-- The line and the span of what a visit meets. -/
def Event.entry (event : Event) : String × Span := (event.line, event.span)

section

variable (K : Set String) [DecidablePred (· ∈ K)]

/-- What is left of events behind so many that are left out. Of the events of a statement of these kinds only the first
is left. -/
def outsideBehind : Nat → List Event → List Event
  | _, [] => []
  | skipped + 1, _ :: rest => outsideBehind skipped rest
  | 0, .stmt s :: rest => .stmt s :: outsideBehind (if s.kind ∈ K then s.events.length - 1 else 0) rest
  | 0, event :: rest => event :: outsideBehind 0 rest

/-- What a visit meets, without what it meets below a statement of these kinds. -/
def outside (events : List Event) : List Event := outsideBehind K 0 events

/-- A statement of these kinds, emptied. -/
def Event.emptied : Event → Event
  | .stmt s => if s.kind ∈ K then .stmt (.empty s.span) else .stmt s
  | event => event

/-- The hooks empty the statements of these kinds and leave every other node as it is. They may change the state. -/
structure Hooks.Empties (h : Hooks σ) : Prop where
  program (p : Program) (st : σ) : (h.program p st).1 = p
  stmt (s : Stmt) (st : σ) : (h.stmt s st).1 = if s.kind ∈ K then .empty s.span else s
  block (b : Block) (st : σ) : (h.block b st).1 = b
  declaration (d : Declaration) (st : σ) : (h.declaration d st).1 = d
  functionDecl (f : FunctionDecl) (st : σ) : (h.functionDecl f st).1 = f
  forLoop (l : ForLoop) (st : σ) : (h.forLoop l st).1 = l
  whileLoop (l : WhileLoop) (st : σ) : (h.whileLoop l st).1 = l
  ifElse (i : IfElse) (st : σ) : (h.ifElse i st).1 = i
  function (f : Function) (st : σ) : (h.function f st).1 = f
  expr (e : Expr) (st : σ) : (h.expr e st).1 = e

/-- What is met is no statement of these kinds. -/
def Event.Kept : Event → Prop
  | .stmt s => s.kind ∉ K
  | _ => True

/-- A node with these events, met in a state, is walked to one with other events and a state behind it. -/
structure Walked (h : Hooks σ) (before : List Event) (st : σ) (after : List Event) (st' : σ) : Prop where
  /-- The events stand for whole nodes: what is left out behind one of them is among them. -/
  split (rest : List Event) : outside K (before ++ rest) = outside K before ++ outside K rest
  /-- The hooks are called for what is met outside of the emptied statements. -/
  calls : st' = (outside K before).foldl h.call st
  kept : ∀ event ∈ after, event.Kept K
  trace : after.map Event.entry = (outside K before).map fun event => (event.emptied K).entry

end

variable {K : Set String} [DecidablePred (· ∈ K)] {h : Hooks σ}

theorem outside_cons {event : Event} (kept : event.Kept K) (rest : List Event) :
    outside K (event :: rest) = event :: outside K rest := by
  cases event with
  | stmt s =>
    have kept : s.kind ∉ K := kept
    rw [outside, outsideBehind, if_neg kept, outside]
  | _ => rfl

theorem Event.emptied_eq {event : Event} (kept : event.Kept K) : event.emptied K = event := by
  cases event with
  | stmt s =>
    have kept : s.kind ∉ K := kept
    rw [Event.emptied, if_neg kept]
  | _ => rfl

theorem outsideBehind_append (skipped rest : List Event) :
    outsideBehind K skipped.length (skipped ++ rest) = outside K rest := by
  induction skipped with
  | nil => rfl
  | cons event skipped ih => exact ih

/-- Of the events of a statement of these kinds the first is left. -/
theorem outside_stmt {s : Stmt} (hs : s.kind ∈ K) (rest : List Event) :
    outside K (s.events ++ rest) = .stmt s :: outside K rest := by
  obtain ⟨inside, events⟩ := s.exists_events_eq
  rw [events, List.cons_append, outside, outsideBehind, if_pos hs, events, List.length_cons, Nat.add_one_sub_one,
    outsideBehind_append]

namespace Walked

theorem nil (st : σ) : Walked K h [] st [] st where
  split _ := rfl
  calls := rfl
  kept := nofun
  trace := rfl

theorem append {before before' after after' : List Event} {st st₁ st₂ : σ}
    (first : Walked K h before st after st₁) (second : Walked K h before' st₁ after' st₂) :
    Walked K h (before ++ before') st (after ++ after') st₂ where
  split rest := by rw [List.append_assoc, first.split, first.split, second.split, List.append_assoc]
  calls := by rw [first.split, List.foldl_append, ← first.calls, second.calls]
  kept := List.forall_mem_append.mpr ⟨first.kept, second.kept⟩
  trace := by rw [List.map_append, first.trace, second.trace, first.split, List.map_append]

/-- A node is met, and what is left of it has the same entry. -/
theorem cons {event event' : Event} {before after : List Event} {st st' : σ} (kept : event.Kept K)
    (kept' : event'.Kept K) (same : event'.entry = event.entry) (rest : Walked K h before (h.call st event) after st') :
    Walked K h (event :: before) st (event' :: after) st' where
  split more := by rw [List.cons_append, outside_cons kept, outside_cons kept, rest.split, List.cons_append]
  calls := by rw [outside_cons kept, List.foldl_cons, rest.calls]
  kept := List.forall_mem_cons.mpr ⟨kept', rest.kept⟩
  trace := by rw [outside_cons kept, List.map_cons, List.map_cons, rest.trace, Event.emptied_eq kept, same]

theorem identifiers (id : Option Identifier) (st : σ) :
    Walked K h (id.toList.map .identifier) st (id.toList.map .identifier) st := by
  cases id with
  | none => exact nil st
  | some id => exact cons trivial trivial rfl (nil st)

/-- A statement is emptied, or walked inside. -/
theorem stmt (empties : h.Empties K) (fresh : "EmptyStatement" ∉ K) {s : Stmt} {st : σ}
    (inside : s.kind ∉ K → Walked K h s.events st (descendStmt h s (h.stmt s st).2).1.events
      (descendStmt h s (h.stmt s st).2).2) :
    Walked K h s.events st (walkStmt h s st).1.events (walkStmt h s st).2 := by
  rw [walkStmt, empties.stmt]
  by_cases hs : s.kind ∈ K
  · have events : outside K s.events = [.stmt s] := by
      have := outside_stmt hs []
      rwa [List.append_nil] at this
    rw [if_pos hs, descendStmt, Stmt.events]
    refine ⟨fun rest => ?_, ?_, ?_, ?_⟩
    · rw [outside_stmt hs, events]
      rfl
    · rw [events]
      rfl
    · rw [List.forall_mem_singleton]
      exact fresh
    · rw [events, List.map_singleton, List.map_singleton, Event.emptied, if_pos hs]
  · rw [if_neg hs]
    exact inside hs

end Walked

/-! ## Lengths -/

theorem length_walkExprs (h : Hooks σ) (es : List Expr) (st : σ) : (walkExprs h es st).1.length = es.length := by
  induction es generalizing st with
  | nil => rw [walkExprs]
  | cons e es ih => rw [walkExprs, List.length_cons, ih, List.length_cons]

theorem length_walkStmts (h : Hooks σ) (ss : List Stmt) (st : σ) : (walkStmts h ss st).1.length = ss.length := by
  induction ss generalizing st with
  | nil => rw [walkStmts]
  | cons s ss ih => rw [walkStmts, List.length_cons, ih, List.length_cons]

theorem length_walkDeclarators (h : Hooks σ) (ds : List Declarator) (st : σ) :
    (walkDeclarators h ds st).1.length = ds.length := by
  induction ds generalizing st with
  | nil => rw [walkDeclarators]
  | cons d ds ih =>
    obtain ⟨_, _, _⟩ := d
    rw [walkDeclarators, List.length_cons, ih, List.length_cons]

/-! ## Trees -/

namespace Hooks.Empties

theorem span_walkBlock (empties : h.Empties K) (b : Block) (st : σ) : (walkBlock h b st).1.span = b.span := by
  rw [walkBlock, empties.block]

theorem span_walkDeclaration (empties : h.Empties K) (d : Declaration) (st : σ) :
    (walkDeclaration h d st).1.span = d.span := by
  rw [walkDeclaration, empties.declaration]

theorem walk_walked (empties : h.Empties K) (fresh : "EmptyStatement" ∉ K) : TreeLaw.Holds
    { expr e := ∀ st, Walked K h e.events st (walkExpr h e st).1.events (walkExpr h e st).2
      exprs es := ∀ st, Walked K h (eventsOfExprs es) st (eventsOfExprs (walkExprs h es st).1) (walkExprs h es st).2
      elements es := ∀ st,
        Walked K h (eventsOfElements es) st (eventsOfElements (walkElements h es st).1) (walkElements h es st).2
      properties ps := ∀ st, Walked K h (eventsOfProperties ps) st
        (eventsOfProperties (walkProperties h ps st).1) (walkProperties h ps st).2
      block b := ∀ st, Walked K h b.events st (walkBlock h b st).1.events (walkBlock h b st).2
      stmts ss := ∀ st, Walked K h (eventsOfStmts ss) st (eventsOfStmts (walkStmts h ss st).1) (walkStmts h ss st).2
      declaration d := ∀ st, Walked K h d.events st (walkDeclaration h d st).1.events (walkDeclaration h d st).2
      declarators ds := ∀ st, Walked K h (eventsOfDeclarators ds) st
        (eventsOfDeclarators (walkDeclarators h ds st).1) (walkDeclarators h ds st).2
      option e := ∀ st,
        Walked K h (eventsOfOption e) st (eventsOfOption (walkOption h e st).1) (walkOption h e st).2
      forInit init := ∀ st, Walked K h (eventsOfForInit init) st
        (eventsOfForInit (walkForInit h init st).1) (walkForInit h init st).2
      stmt s := ∀ st, Walked K h s.events st (walkStmt h s st).1.events (walkStmt h s st).2 } := by
  refine TreeLaw.Closed.holds ?_
  constructor
  all_goals
    dsimp only
    intros
  case assignment left right _ | binary left right _ | member left right _ | call left right _ | new left right _ =>
    rw [walkExpr, empties.expr, descendExpr]
    simp only [Expr.events]
    exact .cons trivial trivial rfl ((left _).append (right _))
  case unary inside _ | update inside _ | sequence inside _ | object inside _ | array inside _ =>
    rw [walkExpr, empties.expr, descendExpr]
    simp only [Expr.events]
    exact .cons trivial trivial rfl (inside _)
  case function params body _ =>
    rw [walkExpr, empties.expr, descendExpr, walkFunction, empties.function]
    simp only [Expr.events]
    refine .cons trivial trivial rfl (.cons trivial trivial ?_ (((Walked.identifiers _ _).append (params _)).append
      (body _)))
    simp only [Event.entry, Event.line, Event.span, length_walkExprs]
  case conditional test consequent alternate _ =>
    rw [walkExpr, empties.expr, descendExpr]
    simp only [Expr.events]
    exact .cons trivial trivial rfl (((test _).append (consequent _)).append (alternate _))
  case identifier =>
    rw [walkExpr, empties.expr, descendExpr]
    simp only [Expr.events]
    exact .cons trivial trivial rfl (.cons trivial trivial rfl (.nil _))
  case this | literal | unknownExpr =>
    rw [walkExpr, empties.expr, descendExpr]
    simp only [Expr.events]
    exact .cons trivial trivial rfl (.nil _)
  case block body _ =>
    rw [walkBlock, empties.block]
    simp only [Block.events]
    refine .cons trivial trivial ?_ (body _)
    simp only [Event.entry, Event.line, Event.span, length_walkStmts]
  case declaration declarators _ =>
    rw [walkDeclaration, empties.declaration]
    simp only [Declaration.events]
    refine .cons trivial trivial ?_ (declarators _)
    simp only [Event.entry, Event.line, Event.span, length_walkDeclarators]
  case declarationStmt inside _ =>
    refine .stmt empties fresh fun hs => ?_
    simp only [descendStmt, Stmt.events]
    exact .cons hs hs (congrArg (Prod.mk _) (empties.span_walkDeclaration _ _)) (inside _)
  case blockStmt inside _ =>
    refine .stmt empties fresh fun hs => ?_
    simp only [descendStmt, Stmt.events]
    exact .cons hs hs (congrArg (Prod.mk _) (empties.span_walkBlock _ _)) (inside _)
  case functionDecl params body _ =>
    refine .stmt empties fresh fun hs => ?_
    simp only [descendStmt, empties.functionDecl, Stmt.events]
    exact .cons hs hs rfl (.cons trivial trivial rfl (.cons trivial trivial rfl ((params _).append (body _))))
  case ret inside _ | throw inside _ | expression inside _ =>
    refine .stmt empties fresh fun hs => ?_
    simp only [descendStmt, Stmt.events]
    exact .cons hs hs rfl (inside _)
  case forLoop init test update body _ =>
    refine .stmt empties fresh fun hs => ?_
    simp only [descendStmt, empties.forLoop, Stmt.events]
    exact .cons hs hs rfl (.cons trivial trivial rfl
      ((((init _).append (test _)).append (update _)).append (body _)))
  case whileLoop test body _ | ifThen test body _ =>
    refine .stmt empties fresh fun hs => ?_
    simp only [descendStmt, empties.whileLoop, empties.ifElse, walkBranch, Stmt.events]
    exact .cons hs hs rfl (.cons trivial trivial rfl ((test _).append (body _)))
  case ifElse test consequent alternate _ =>
    refine .stmt empties fresh fun hs => ?_
    simp only [descendStmt, empties.ifElse, walkBranch, Stmt.events]
    exact .cons hs hs rfl (.cons trivial trivial rfl (((test _).append (consequent _)).append (alternate _)))
  case brk | cont | empty | unknownStmt =>
    refine .stmt empties fresh fun hs => ?_
    simp only [descendStmt, Stmt.events]
    exact .cons hs hs rfl (.nil _)
  case exprs_nil | properties_nil | elements_nil | stmts_nil | option_none | declarators_nil | forInit_none =>
    simp only [walkExprs, eventsOfExprs, walkProperties, eventsOfProperties, walkElements, eventsOfElements, walkStmts,
      eventsOfStmts, walkOption, eventsOfOption, walkDeclarators, eventsOfDeclarators, walkForInit, eventsOfForInit]
    exact .nil _
  case exprs_cons first rest _ | elements_cons first rest _ | stmts_cons first rest _ =>
    simp only [walkExprs, eventsOfExprs, walkElements, eventsOfElements, walkStmts, eventsOfStmts]
    exact (first _).append (rest _)
  case properties_cons key value rest _ =>
    simp only [walkProperties, eventsOfProperties]
    exact ((key _).append (value _)).append (rest _)
  case declarators_cons init rest _ =>
    simp only [walkDeclarators, eventsOfDeclarators]
    exact .cons trivial trivial rfl (.cons trivial trivial rfl ((init _).append (rest _)))
  case elements_hole inside _ | option_some inside _ | forInit_declaration inside _ | forInit_expression inside _ =>
    simp only [walkElements, eventsOfElements, walkOption, eventsOfOption, walkForInit, eventsOfForInit]
    exact inside _

theorem recording (empties : h.Empties K) : h.recording.Empties K where
  program p st := empties.program p st.1
  stmt s st := empties.stmt s st.1
  block b st := empties.block b st.1
  declaration d st := empties.declaration d st.1
  functionDecl f st := empties.functionDecl f st.1
  forLoop l st := empties.forLoop l st.1
  whileLoop l st := empties.whileLoop l st.1
  ifElse i st := empties.ifElse i st.1
  function f st := empties.function f st.1
  expr e st := empties.expr e st.1

theorem walkProgram_walked (empties : h.Empties K) (fresh : "EmptyStatement" ∉ K) (p : Program) (st : σ) :
    Walked K h p.events st (walkProgram h p st).1.events (walkProgram h p st).2 := by
  rw [walkProgram, empties.program]
  simp only [Program.events]
  refine .cons trivial trivial ?_ ((empties.walk_walked fresh).stmts p.body _)
  simp only [Event.entry, Event.line, Event.span, length_walkStmts]

end Hooks.Empties

/-! ## Programs -/

/-- A walk that empties the statements of some kinds, which is not the kind of an empty statement, leaves no statement
of these kinds, at whatever depth. Its hooks are called for what a visit of the program meets outside of these
statements, and a visit of what it leaves meets the same, with an empty statement in the place of each of them. -/
theorem walkProgram_emptied (fresh : "EmptyStatement" ∉ K) (empties : h.Empties K) (p : Program) (st : σ) :
    (∀ s, (Subtree.program (walkProgram h p st).1).Within (.stmt s) → s.kind ∉ K) ∧
    (walkProgram h.recording p (st, [])).2 =
      ((walkProgram h p st).2, (outside K p.events).filter Event.hasHook) ∧
    (walkProgram h p st).1.events.map Event.entry =
      (outside K p.events).map fun event => (event.emptied K).entry := by
  have walked := empties.walkProgram_walked fresh p st
  refine ⟨fun s within => ?_, ?_, walked.trace⟩
  · exact walked.kept _ (Subtree.events_subset_of_within within s.mem_events)
  · rw [(empties.recording.walkProgram_walked fresh p (st, [])).calls, Hooks.foldl_call_recording, walked.calls,
      List.nil_append]

/-- Dropping statements is such a walk. -/
theorem Edits.empties (kinds : List String) : (Edits.hooks { drop := kinds }).Empties {kind | kind ∈ kinds} := by
  constructor
  case declaration =>
    intro d _
    cases d
    rfl
  case expr =>
    intro e _
    cases e <;> rfl
  all_goals
    intros
    rfl

/-- The loop inside of the function is emptied, and nothing in it is met. -/
theorem walkProgram_emptied_exampleTree :
    let h := Edits.hooks { drop := ["ForStatement"] }
    h.Empties {kind | kind ∈ ["ForStatement"]} ∧
      (walkProgram h.recording exampleTree ([], [])).2.2.map Event.line =
        ["program 2", "stmt VariableDeclaration", "var_decl var 1", "expr FunctionExpression", "function 1",
          "expr Identifier", "block 1", "stmt ForStatement", "stmt ExpressionStatement", "expr ArrayExpression",
          "expr MemberExpression", "expr super", "expr Identifier"] ∧
      ((walkProgram h exampleTree []).1.events.map Event.entry).map Prod.fst =
        ["program 2", "stmt VariableDeclaration", "var_decl var 1", "declarator f", "identifier f",
          "expr FunctionExpression", "function 1", "identifier g", "expr Identifier", "identifier x", "block 1",
          "stmt EmptyStatement", "stmt ExpressionStatement", "expr ArrayExpression", "expr MemberExpression", "expr super",
          "expr Identifier", "identifier b"] := by
  intro h
  have empties : h.Empties {kind | kind ∈ ["ForStatement"]} := Edits.empties _
  obtain ⟨-, calls, trace⟩ := walkProgram_emptied (by decide) empties exampleTree []
  rw [calls, trace]
  exact ⟨empties, by decide +kernel, by decide +kernel⟩

end IndexedLoop
