import IndexedLoop.Tree.Basic

/-!
# Visiting a tree

A visit of a tree meets every node before the nodes inside it, from left to right. `Program.events`
is the list of what it meets. A statement is met as a statement first and then as what it is, if it
is a block, a declaration, a loop or an `if`; a name is met as an identifier wherever it stands, as a
reference, a binding or a property.
-/

namespace IndexedLoop

/-- What a visit meets. -/
inductive Event where
  | program (program : Program)
  | stmt (stmt : Stmt)
  | block (block : Block)
  | declaration (decl : Declaration)
  | declarator (declarator : Declarator)
  | functionDecl (fn : FunctionDecl)
  | forLoop (loop : ForLoop)
  | whileLoop (loop : WhileLoop)
  | ifElse (branch : IfElse)
  | function (fn : Function)
  | expr (expr : Expr)
  | identifier (id : Identifier)

/-- An event in one line. -/
def Event.line : Event → String
  | .program p => s!"program {p.body.length}"
  | .stmt s => s!"stmt {s.kind}"
  | .block b => s!"block {b.body.length}"
  | .declaration d => s!"var_decl {d.kind.token} {d.declarators.length}"
  | .declarator d => s!"declarator {d.id.name}"
  | .functionDecl f => s!"function_decl {f.id.name}"
  | .forLoop _ => "for_stmt"
  | .whileLoop _ => "while_stmt"
  | .ifElse _ => "if_stmt"
  | .function f => s!"function {f.params.length}"
  | .expr e => s!"expr {e.kind}"
  | .identifier i => s!"identifier {i.name}"

mutual

/-- The events of an expression. -/
def Expr.events : Expr → List Event
  | .assignment span op left right =>
    .expr (.assignment span op left right) :: (left.events ++ right.events)
  | .binary span op left right =>
    .expr (.binary span op left right) :: (left.events ++ right.events)
  | .unary span op argument => .expr (.unary span op argument) :: argument.events
  | .sequence span expressions => .expr (.sequence span expressions) :: eventsOfExprs expressions
  | .update span op leading argument =>
    .expr (.update span op leading argument) :: argument.events
  | .function ⟨span, id, params, body⟩ =>
    .expr (.function ⟨span, id, params, body⟩) :: .function ⟨span, id, params, body⟩
      :: (id.toList.map .identifier ++ eventsOfExprs params ++ body.events)
  | .call span callee arguments =>
    .expr (.call span callee arguments) :: (callee.events ++ eventsOfExprs arguments)
  | .new span callee arguments =>
    .expr (.new span callee arguments) :: (callee.events ++ eventsOfExprs arguments)
  | .conditional span test consequent alternate =>
    .expr (.conditional span test consequent alternate)
      :: (test.events ++ consequent.events ++ alternate.events)
  | .member span object property access =>
    .expr (.member span object property access) :: (object.events ++ property.events)
  | .object span properties => .expr (.object span properties) :: eventsOfProperties properties
  | .array span elements => .expr (.array span elements) :: eventsOfElements elements
  | .this span => [.expr (.this span)]
  | .identifier id => [.expr (.identifier id), .identifier id]
  | .literal lit => [.expr (.literal lit)]
  | .unknown node => [.expr (.unknown node)]

/-- The events of expressions, one after the other. -/
def eventsOfExprs : List Expr → List Event
  | [] => []
  | e :: rest => e.events ++ eventsOfExprs rest

/-- The events of the elements of an array. -/
def eventsOfElements : List (Option Expr) → List Event
  | [] => []
  | none :: rest => eventsOfElements rest
  | some e :: rest => e.events ++ eventsOfElements rest

/-- The events of the properties of an object, each key before its value. -/
def eventsOfProperties : List Property → List Event
  | [] => []
  | ⟨_, key, value⟩ :: rest => key.events ++ value.events ++ eventsOfProperties rest

/-- The events of a block. -/
def Block.events : Block → List Event
  | ⟨span, body⟩ => .block ⟨span, body⟩ :: eventsOfStmts body

/-- The events of statements, one after the other. -/
def eventsOfStmts : List Stmt → List Event
  | [] => []
  | s :: rest => s.events ++ eventsOfStmts rest

/-- The events of a declaration. -/
def Declaration.events : Declaration → List Event
  | ⟨span, kind, declarators⟩ =>
    .declaration ⟨span, kind, declarators⟩ :: eventsOfDeclarators declarators

/-- The events of the variables of a declaration. -/
def eventsOfDeclarators : List Declarator → List Event
  | [] => []
  | ⟨span, id, init⟩ :: rest =>
    .declarator ⟨span, id, init⟩ :: .identifier id :: (eventsOfOption init ++ eventsOfDeclarators rest)

/-- The events of an expression that may be absent. -/
def eventsOfOption : Option Expr → List Event
  | none => []
  | some e => e.events

/-- The events of the first part of the head of a loop. -/
def eventsOfForInit : Option ForInit → List Event
  | none => []
  | some (.declaration decl) => decl.events
  | some (.expression e) => e.events

/-- The events of a statement. -/
def Stmt.events : Stmt → List Event
  | .declaration decl => .stmt (.declaration decl) :: decl.events
  | .functionDecl ⟨span, id, params, body⟩ =>
    .stmt (.functionDecl ⟨span, id, params, body⟩) :: .functionDecl ⟨span, id, params, body⟩
      :: .identifier id :: (eventsOfExprs params ++ body.events)
  | .block b => .stmt (.block b) :: b.events
  | .ret span argument => .stmt (.ret span argument) :: eventsOfOption argument
  | .forLoop ⟨span, init, test, update, body⟩ =>
    .stmt (.forLoop ⟨span, init, test, update, body⟩) :: .forLoop ⟨span, init, test, update, body⟩
      :: (eventsOfForInit init ++ eventsOfOption test ++ eventsOfOption update ++ body.events)
  | .whileLoop ⟨span, test, body⟩ =>
    .stmt (.whileLoop ⟨span, test, body⟩) :: .whileLoop ⟨span, test, body⟩
      :: (test.events ++ body.events)
  | .ifElse ⟨span, test, consequent, none⟩ =>
    .stmt (.ifElse ⟨span, test, consequent, none⟩) :: .ifElse ⟨span, test, consequent, none⟩
      :: (test.events ++ consequent.events)
  | .ifElse ⟨span, test, consequent, some alternate⟩ =>
    .stmt (.ifElse ⟨span, test, consequent, some alternate⟩)
      :: .ifElse ⟨span, test, consequent, some alternate⟩
      :: (test.events ++ consequent.events ++ alternate.events)
  | .brk span => [.stmt (.brk span)]
  | .cont span => [.stmt (.cont span)]
  | .throw span argument => .stmt (.throw span argument) :: argument.events
  | .empty span => [.stmt (.empty span)]
  | .expression span expr => .stmt (.expression span expr) :: expr.events
  | .unknown node => [.stmt (.unknown node)]

end

/-- The events of a visit of a program. -/
def Program.events (program : Program) : List Event :=
  .program program :: eventsOfStmts program.body

/-- The names a program mentions, in the order of a visit. -/
def Program.names (program : Program) : List String :=
  program.events.filterMap fun
    | .identifier id => some id.name
    | _ => none

end IndexedLoop
