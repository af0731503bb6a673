import IndexedLoop.Proofs.RenamedTrees
import IndexedLoop.Tree.Walk

/-!
# A walk goes where a visit goes

A walk whose hooks change nothing leaves every tree as it is and calls its hooks for the nodes that a visit
meets, in the same order. Variables and names have no hook, so a walk passes over them. The state behind a
walk is the one behind these calls (`walkProgram_of_changesNothing`), and a walk that takes down its calls
has the events of the visit in the end (`calls_are_events`). Hooks that rename are called for the same nodes
(`Hooks.Renames.walkProgram_eq`).
-/

namespace IndexedLoop

variable {σ : Type}

/-- A walk has a hook for what the visit meets. -/
def Event.hasHook : Event → Bool
  | .declarator _ | .identifier _ => false
  | _ => true

namespace Hooks

/-- The hooks leave every node as it is. They may change the state. -/
structure ChangesNothing (h : Hooks σ) : Prop where
  program (p : Program) (st : σ) : (h.program p st).1 = p
  stmt (s : Stmt) (st : σ) : (h.stmt s st).1 = s
  block (b : Block) (st : σ) : (h.block b st).1 = b
  declaration (d : Declaration) (st : σ) : (h.declaration d st).1 = d
  functionDecl (f : FunctionDecl) (st : σ) : (h.functionDecl f st).1 = f
  forLoop (l : ForLoop) (st : σ) : (h.forLoop l st).1 = l
  whileLoop (l : WhileLoop) (st : σ) : (h.whileLoop l st).1 = l
  ifElse (i : IfElse) (st : σ) : (h.ifElse i st).1 = i
  function (f : Function) (st : σ) : (h.function f st).1 = f
  expr (e : Expr) (st : σ) : (h.expr e st).1 = e

/-- The state behind the hook for what a visit meets. -/
def call (h : Hooks σ) (st : σ) : Event → σ
  | .program p => (h.program p st).2
  | .stmt s => (h.stmt s st).2
  | .block b => (h.block b st).2
  | .declaration d => (h.declaration d st).2
  | .functionDecl f => (h.functionDecl f st).2
  | .forLoop l => (h.forLoop l st).2
  | .whileLoop l => (h.whileLoop l st).2
  | .ifElse i => (h.ifElse i st).2
  | .function f => (h.function f st).2
  | .expr e => (h.expr e st).2
  | .declarator _ | .identifier _ => st

/-- The same hooks, which take down each call with the node it is made for. -/
def recording (h : Hooks σ) : Hooks (σ × List Event) where
  program p st := let r := h.program p st.1; (r.1, r.2, st.2 ++ [.program p])
  stmt s st := let r := h.stmt s st.1; (r.1, r.2, st.2 ++ [.stmt s])
  block b st := let r := h.block b st.1; (r.1, r.2, st.2 ++ [.block b])
  declaration d st := let r := h.declaration d st.1; (r.1, r.2, st.2 ++ [.declaration d])
  functionDecl f st := let r := h.functionDecl f st.1; (r.1, r.2, st.2 ++ [.functionDecl f])
  forLoop l st := let r := h.forLoop l st.1; (r.1, r.2, st.2 ++ [.forLoop l])
  whileLoop l st := let r := h.whileLoop l st.1; (r.1, r.2, st.2 ++ [.whileLoop l])
  ifElse i st := let r := h.ifElse i st.1; (r.1, r.2, st.2 ++ [.ifElse i])
  function f st := let r := h.function f st.1; (r.1, r.2, st.2 ++ [.function f])
  expr e st := let r := h.expr e st.1; (r.1, r.2, st.2 ++ [.expr e])
  stmt_le s st := h.stmt_le s st.1
  block_le b st := h.block_le b st.1
  declaration_le d st := h.declaration_le d st.1
  functionDecl_le f st := h.functionDecl_le f st.1
  forLoop_le l st := h.forLoop_le l st.1
  whileLoop_le l st := h.whileLoop_le l st.1
  ifElse_le i st := h.ifElse_le i st.1
  function_le f st := h.function_le f st.1
  expr_le e st := h.expr_le e st.1

theorem ChangesNothing.recording {h : Hooks σ} (idle : h.ChangesNothing) :
    h.recording.ChangesNothing where
  program p st := idle.program p st.1
  stmt s st := idle.stmt s st.1
  block b st := idle.block b st.1
  declaration d st := idle.declaration d st.1
  functionDecl f st := idle.functionDecl f st.1
  forLoop l st := idle.forLoop l st.1
  whileLoop l st := idle.whileLoop l st.1
  ifElse i st := idle.ifElse i st.1
  function f st := idle.function f st.1
  expr e st := idle.expr e st.1

theorem call_of_not_hasHook (h : Hooks σ) (st : σ) {event : Event} (no : event.hasHook = false) :
    h.call st event = st := by
  cases event <;> first | rfl | cases no

theorem call_recording (h : Hooks σ) (st : σ) (log : List Event) {event : Event}
    (hook : event.hasHook = true) :
    h.recording.call (st, log) event = (h.call st event, log ++ [event]) := by
  cases event <;> first | rfl | cases hook

theorem call_identifiers (h : Hooks σ) (st : σ) (id : Option Identifier) :
    (id.toList.map Event.identifier).foldl h.call st = st := by
  cases id <;> rfl

/-- Calls that are taken down do what they do otherwise, and are all there. -/
theorem foldl_call_recording (h : Hooks σ) (events : List Event) (st : σ) (log : List Event) :
    events.foldl h.recording.call (st, log) =
      (events.foldl h.call st, log ++ events.filter Event.hasHook) := by
  induction events generalizing st log with
  | nil => simp
  | cons event rest ih =>
    simp only [List.foldl_cons]
    cases hook : event.hasHook with
    | true =>
      rw [call_recording h st log hook, ih, List.filter_cons_of_pos hook, List.append_assoc]
      rfl
    | false =>
      rw [call_of_not_hasHook _ _ hook, call_of_not_hasHook _ _ hook, ih,
        List.filter_cons_of_neg (by simp [hook])]

end Hooks

/-! ## Trees

Hooks that give new names to expressions that are names change nothing else of the nodes which the walk goes on with. So they
are called where hooks that change nothing are called, for the same nodes. -/

/-- The expression under a new name, if it is a name. What stands inside of any other expression stays. -/
def Expr.renamedHere (f : String → String) : Expr → Expr
  | .identifier id => .identifier (id.renamed f)
  | e => e

/-- The hooks give new names to expressions that are names and leave every other node as it is. They may change the
state. -/
structure Hooks.Renames (f : String → String) (h : Hooks σ) : Prop where
  program (p : Program) (st : σ) : (h.program p st).1 = p
  stmt (s : Stmt) (st : σ) : (h.stmt s st).1 = s
  block (b : Block) (st : σ) : (h.block b st).1 = b
  declaration (d : Declaration) (st : σ) : (h.declaration d st).1 = d
  functionDecl (fn : FunctionDecl) (st : σ) : (h.functionDecl fn st).1 = fn
  forLoop (l : ForLoop) (st : σ) : (h.forLoop l st).1 = l
  whileLoop (l : WhileLoop) (st : σ) : (h.whileLoop l st).1 = l
  ifElse (i : IfElse) (st : σ) : (h.ifElse i st).1 = i
  function (fn : Function) (st : σ) : (h.function fn st).1 = fn
  expr (e : Expr) (st : σ) : (h.expr e st).1 = e.renamedHere f

theorem Hooks.ChangesNothing.renames {h : Hooks σ} (idle : h.ChangesNothing) : h.Renames id :=
  { idle with
    expr := fun e st => by
      rw [idle.expr]
      cases e <;> rfl }

namespace Hooks.Renames

variable {f : String → String} {h : Hooks σ}

theorem walk_eq (renames : h.Renames f) : TreeLaw.Holds
    { expr e := ∀ st, walkExpr h e st = (e.renamed f, e.events.foldl h.call st)
      exprs es := ∀ st, walkExprs h es st = (renamedExprs f es, (eventsOfExprs es).foldl h.call st)
      elements es := ∀ st, walkElements h es st = (renamedElements f es, (eventsOfElements es).foldl h.call st)
      properties ps := ∀ st,
        walkProperties h ps st = (renamedProperties f ps, (eventsOfProperties ps).foldl h.call st)
      block b := ∀ st, walkBlock h b st = (b.renamed f, b.events.foldl h.call st)
      stmts ss := ∀ st, walkStmts h ss st = (renamedStmts f ss, (eventsOfStmts ss).foldl h.call st)
      declaration d := ∀ st, walkDeclaration h d st = (d.renamed f, d.events.foldl h.call st)
      declarators ds := ∀ st,
        walkDeclarators h ds st = (renamedDeclarators f ds, (eventsOfDeclarators ds).foldl h.call st)
      option e := ∀ st, walkOption h e st = (renamedOption f e, (eventsOfOption e).foldl h.call st)
      forInit init := ∀ st, walkForInit h init st = (renamedForInit f init, (eventsOfForInit init).foldl h.call st)
      stmt s := ∀ st, walkStmt h s st = (s.renamed f, s.events.foldl h.call st) } := by
  refine TreeLaw.Closed.holds ?_
  constructor
  all_goals
    dsimp only
    intros
  -- the hook comes first, and its node is the one that the walk goes on with
  case assignment | binary | unary | sequence | update | function | call | new | conditional | member | object | array |
      this | identifier | literal | unknownExpr =>
    rw [walkExpr, renames.expr]
    simp only [Expr.renamedHere, descendExpr, walkFunction, renames.function, Expr.renamed, Expr.events, List.foldl_cons,
      List.foldl_append, List.foldl_nil, call_identifiers, Hooks.call, *]
  case block body _ =>
    rw [walkBlock, renames.block]
    simp only [body, Block.renamed, Block.events, List.foldl_cons, Hooks.call]
  case declaration declarators _ =>
    rw [walkDeclaration, renames.declaration]
    simp only [declarators, Declaration.renamed, Declaration.events, List.foldl_cons, Hooks.call]
  case declarationStmt | functionDecl | blockStmt | ret | forLoop | whileLoop | ifThen | ifElse | brk | cont | throw |
      empty | expression | unknownStmt =>
    rw [walkStmt, renames.stmt]
    simp only [descendStmt, renames.functionDecl, renames.forLoop, renames.whileLoop, renames.ifElse, walkBranch,
      Stmt.renamed, renamedBranch, Stmt.events, List.foldl_cons, List.foldl_append, List.foldl_nil, Hooks.call, *]
  -- a list has no hook of its own
  all_goals
    simp only [walkExprs, renamedExprs, eventsOfExprs, walkElements, renamedElements, eventsOfElements, walkProperties,
      renamedProperties, eventsOfProperties, walkStmts, renamedStmts, eventsOfStmts, walkDeclarators,
      renamedDeclarators, eventsOfDeclarators, walkOption, renamedOption, eventsOfOption, walkForInit, renamedForInit,
      eventsOfForInit, List.foldl_cons, List.foldl_append, List.foldl_nil, Hooks.call, *]

theorem walkProgram_eq (renames : h.Renames f) (p : Program) (st : σ) :
    walkProgram h p st = (p.renamed f, p.events.foldl h.call st) := by
  rw [walkProgram, renames.program, renames.walk_eq.stmts]
  rfl

end Hooks.Renames

/-- The state behind a walk is the one behind the calls for what a visit meets. -/
theorem walkProgram_of_changesNothing {h : Hooks σ} (idle : h.ChangesNothing) (p : Program) (st : σ) :
    walkProgram h p st = (p, p.events.foldl h.call st) := by
  rw [idle.renames.walkProgram_eq, p.renamed_eq_self]

/-- A walk whose hooks change nothing leaves the program as it is, and its hooks are called for the nodes
that a visit meets, in the order of the visit. -/
theorem calls_are_events (h : Hooks σ) (idle : h.ChangesNothing) (p : Program) (st : σ) :
    (walkProgram h p st).1 = p ∧
      walkProgram h.recording p (st, []) = (p, (walkProgram h p st).2, p.events.filter Event.hasHook) := by
  simp only [walkProgram_of_changesNothing idle, walkProgram_of_changesNothing idle.recording,
    Hooks.foldl_call_recording, List.nil_append, and_self]

/-- Hooks that change nothing and count the statements. -/
def Hooks.countStatements : Hooks Nat :=
  { Hooks.idle Nat with
    stmt := fun s n => (s, n + 1)
    stmt_le := fun _ _ => Nat.le_refl _ }

/-- A program `var f = function g(x) {for (f; ; ) ...}, [, a.b] ...` with a statement and an expression that
have no form in the tree. -/
def exampleTree : Program :=
  let s := Span.none
  ⟨s, [.declaration ⟨s, .var, [⟨s, ⟨s, "f"⟩, some (.function ⟨s, some ⟨s, "g"⟩, [Expr.ident "x"],
      ⟨s, [.forLoop ⟨s, some (.expression (Expr.ident "f")), none, none, .unknown ⟨s, "switch_statement"⟩⟩]⟩⟩)⟩]⟩,
    .expression s (.array s [none, some (.member s (.unknown ⟨s, "super"⟩) (Expr.ident "b") .dot)])]⟩

theorem calls_are_events_exampleTree :
    Hooks.countStatements.ChangesNothing ∧
      walkProgram Hooks.countStatements.recording exampleTree (0, []) =
        (exampleTree, 4, exampleTree.events.filter Event.hasHook) ∧
      (exampleTree.events.filter Event.hasHook).map Event.line =
        ["program 2", "stmt VariableDeclaration", "var_decl var 1", "expr FunctionExpression", "function 1",
          "expr Identifier", "block 1", "stmt ForStatement", "for_stmt", "expr Identifier",
          "stmt switch_statement", "stmt ExpressionStatement", "expr ArrayExpression",
          "expr MemberExpression", "expr super", "expr Identifier"] := by
  have idle : Hooks.countStatements.ChangesNothing := by constructor <;> intros <;> rfl
  have counted : (walkProgram Hooks.countStatements exampleTree 0).2 = 4 := by
    rw [walkProgram_of_changesNothing idle]
    rfl
  refine ⟨idle, ?_, by decide +kernel⟩
  rw [(calls_are_events Hooks.countStatements idle exampleTree 0).2, counted]

end IndexedLoop
