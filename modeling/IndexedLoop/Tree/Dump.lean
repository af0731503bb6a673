import IndexedLoop.Number.Decimal
import IndexedLoop.Sexpr
import IndexedLoop.Tree.Basic

/-!
# Dumps of a tree

`Program.dump` shows all of a tree as an s-expression: every node as its fields under their names, and
where nodes of several kinds can stand, with the kind in front.
-/

namespace IndexedLoop

open Sexpr

/-- Numbers in a dump have a point or an exponent: up to 15 decimal places before the point and 5 behind
it they are written out, and a tie between two shortest forms goes to the even one. -/
def dumpNumberStyle : NumberStyle where
  tie := .toEven
  positional := fun e => -5 ≤ e ∧ e ≤ 15
  wholeFraction := true
  infinity := "inf"
  nan := "NaN"

/-- A place as a row. -/
def Point.dump (p : Point) : Sexpr := .vector [p.row, p.col]

/-- A span under the names of its ends. -/
def Span.dump (s : Span) : Sexpr :=
  fields [("file", .string s.file), ("from", s.first.dump), ("to", s.last.dump),
    ("byte_start", nat s.byteStart), ("byte_end", nat s.byteEnd)]

def Identifier.dump (id : Identifier) : Sexpr :=
  fields [("span", id.span.dump), ("name", .string id.name)]

def Unknown.dump (node : Unknown) : Sexpr :=
  fields [("span", node.span.dump), ("kind", .string node.kind)]

def Constant.dump : Constant → Sexpr
  | .string raw => named "String" (.string raw)
  | .number value => named "Number" (.number (dumpNumberStyle.format value))
  | .boolean value => named "Boolean" (.boolean value)
  | .regExp raw => named "RegExp" (.string raw)
  | .null => .symbol "Null"
  | .other kind raw => named "Other" (fields [("kind", .string kind), ("raw", .string raw)])

def Literal.dump (lit : Literal) : Sexpr :=
  fields [("span", lit.span.dump), ("value", lit.value.dump)]

def Access.dump : Access → Sexpr
  | .dot => .symbol "Dot"
  | .bracket => .symbol "Bracket"
  | .other tag => named "Other" (.string tag)

mutual

def Expr.dump : Expr → Sexpr
  | .assignment span op left right =>
    named "Assignment" (fields [("span", span.dump), ("op", .symbol op.name), ("left", left.dump),
      ("right", right.dump)])
  | .binary span op left right =>
    named "Binary" (fields [("span", span.dump), ("op", .symbol op.name), ("left", left.dump),
      ("right", right.dump)])
  | .unary span op argument =>
    named "Unary" (fields [("span", span.dump), ("op", .symbol op.name), ("argument", argument.dump)])
  | .sequence span expressions =>
    named "Sequence" (fields [("span", span.dump), ("expressions", list (dumpExprs expressions))])
  | .update span op leading argument =>
    named "Update" (fields [("span", span.dump), ("op", .symbol op.name), ("prefix", .boolean leading),
      ("argument", argument.dump)])
  | .function ⟨span, id, params, body⟩ =>
    named "Function" (fields [("span", span.dump), ("id", option (id.map Identifier.dump)),
      ("params", list (dumpExprs params)), ("body", body.dump)])
  | .call span callee arguments =>
    named "Call" (fields [("span", span.dump), ("callee", callee.dump),
      ("arguments", list (dumpExprs arguments))])
  | .new span callee arguments =>
    named "New" (fields [("span", span.dump), ("callee", callee.dump),
      ("arguments", list (dumpExprs arguments))])
  | .conditional span test consequent alternate =>
    named "Conditional" (fields [("span", span.dump), ("test", test.dump),
      ("consequent", consequent.dump), ("alternate", alternate.dump)])
  | .member span object property access =>
    named "Member" (fields [("span", span.dump), ("object", object.dump), ("property", property.dump),
      ("access", access.dump)])
  | .object span properties =>
    named "Object" (fields [("span", span.dump), ("properties", list (dumpProperties properties))])
  | .array span elements =>
    named "Array" (fields [("span", span.dump), ("elements", list (dumpElements elements))])
  | .this span => named "This" span.dump
  | .identifier id => named "Identifier" id.dump
  | .literal lit => named "Literal" lit.dump
  | .unknown node => named "Unknown" node.dump

def dumpExprs : List Expr → List Sexpr
  | [] => []
  | e :: rest => e.dump :: dumpExprs rest

def dumpElements : List (Option Expr) → List Sexpr
  | [] => []
  | none :: rest => option none :: dumpElements rest
  | some e :: rest => option (some e.dump) :: dumpElements rest

def dumpProperties : List Property → List Sexpr
  | [] => []
  | ⟨span, key, value⟩ :: rest =>
    fields [("span", span.dump), ("key", key.dump), ("value", value.dump)] :: dumpProperties rest

def dumpOption : Option Expr → Sexpr
  | none => option none
  | some e => option (some e.dump)

def Block.dump : Block → Sexpr
  | ⟨span, body⟩ => fields [("span", span.dump), ("body", list (dumpStmts body))]

def dumpDeclarators : List Declarator → List Sexpr
  | [] => []
  | ⟨span, id, init⟩ :: rest =>
    fields [("span", span.dump), ("id", id.dump), ("init", dumpOption init)] :: dumpDeclarators rest

def Declaration.dump : Declaration → Sexpr
  | ⟨span, kind, declarators⟩ =>
    fields [("span", span.dump), ("kind", .symbol kind.name),
      ("declarations", list (dumpDeclarators declarators))]

def dumpForInit : Option ForInit → Sexpr
  | none => option none
  | some (.declaration decl) => option (some (named "Declaration" decl.dump))
  | some (.expression e) => option (some (named "Expression" e.dump))

def Stmt.dump : Stmt → Sexpr
  | .declaration decl => named "VariableDeclaration" decl.dump
  | .functionDecl ⟨span, id, params, body⟩ =>
    named "FunctionDeclaration" (fields [("span", span.dump), ("id", id.dump),
      ("params", list (dumpExprs params)), ("body", body.dump)])
  | .block b => named "Block" b.dump
  | .ret span argument =>
    named "Return" (fields [("span", span.dump), ("argument", dumpOption argument)])
  | .forLoop ⟨span, init, test, update, body⟩ =>
    named "For" (fields [("span", span.dump), ("init", dumpForInit init), ("test", dumpOption test),
      ("update", dumpOption update), ("body", body.dump)])
  | .whileLoop ⟨span, test, body⟩ =>
    named "While" (fields [("span", span.dump), ("test", test.dump), ("body", body.dump)])
  | .ifElse ⟨span, test, consequent, alternate⟩ =>
    named "If" (fields [("span", span.dump), ("test", test.dump), ("consequent", consequent.dump),
      ("alternate", dumpStmtOption alternate)])
  | .brk span => named "Break" span.dump
  | .cont span => named "Continue" span.dump
  | .throw span argument =>
    named "Throw" (fields [("span", span.dump), ("argument", argument.dump)])
  | .empty span => named "Empty" span.dump
  | .expression span e =>
    named "Expression" (fields [("span", span.dump), ("expression", e.dump)])
  | .unknown node => named "Unknown" node.dump

def dumpStmtOption : Option Stmt → Sexpr
  | none => option none
  | some s => option (some s.dump)

def dumpStmts : List Stmt → List Sexpr
  | [] => []
  | s :: rest => s.dump :: dumpStmts rest

end

/-- A program as an s-expression. -/
def Program.dump (p : Program) : Sexpr :=
  fields [("span", p.span.dump), ("body", list (dumpStmts p.body))]

end IndexedLoop
