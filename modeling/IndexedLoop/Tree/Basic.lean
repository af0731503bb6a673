import IndexedLoop.Number.Binary64
import IndexedLoop.Span
import IndexedLoop.Tree.Operator

/-!
# Syntax trees

The tree of a JavaScript program: expressions, statements, and the parts they share. Parentheses,
comments and blanks leave no trace in it. Every node has the span it was read from. A construct that
the tree has no form for is an `Unknown` node, which keeps the name of the construct and nothing of
what stands inside it.
-/

namespace IndexedLoop

/-- A name, as a reference, a binding or a property. -/
structure Identifier where
  span : Span
  name : String
deriving DecidableEq, Inhabited, Repr

/-- A construct without a form in the tree. -/
structure Unknown where
  span : Span
  kind : String
deriving DecidableEq, Inhabited, Repr

/-- What a literal denotes. Strings and regular expressions are kept as they are written, a string
without its quotes and as the inside of a double-quoted one. -/
inductive Constant where
  | string (raw : String)
  | number (value : Binary64)
  | boolean (value : Bool)
  | regExp (raw : String)
  | null
  | other (kind raw : String)
deriving DecidableEq, Inhabited, Repr

/-- A literal. -/
structure Literal where
  span : Span
  value : Constant
deriving DecidableEq, Inhabited, Repr

/-- How a property is reached: `a.b`, `a[b]`, or in a way the tree has no form for. -/
inductive Access where
  | dot
  | bracket
  | other (tag : String)
deriving DecidableEq, Inhabited, Repr

mutual

/-- An expression. -/
inductive Expr where
  | assignment (span : Span) (op : AssignOp) (left right : Expr)
  | binary (span : Span) (op : BinaryOp) (left right : Expr)
  | unary (span : Span) (op : UnaryOp) (argument : Expr)
  | sequence (span : Span) (expressions : List Expr)
  /-- `++a` if `leading`, else `a++`. -/
  | update (span : Span) (op : UpdateOp) (leading : Bool) (argument : Expr)
  | function (fn : Function)
  | call (span : Span) (callee : Expr) (arguments : List Expr)
  | new (span : Span) (callee : Expr) (arguments : List Expr)
  | conditional (span : Span) (test consequent alternate : Expr)
  | member (span : Span) (object property : Expr) (access : Access)
  | object (span : Span) (properties : List Property)
  /-- A hole of an array is `none`. -/
  | array (span : Span) (elements : List (Option Expr))
  | this (span : Span)
  | identifier (id : Identifier)
  | literal (lit : Literal)
  | unknown (node : Unknown)

/-- A `key: value` of an object. -/
structure Property where
  span : Span
  key : Expr
  value : Expr

/-- A function expression. A parameter that is no plain name is an unknown node. -/
structure Function where
  span : Span
  id : Option Identifier
  params : List Expr
  body : Block

/-- Statements in braces. -/
structure Block where
  span : Span
  body : List Stmt

/-- One variable of a declaration. -/
structure Declarator where
  span : Span
  id : Identifier
  init : Option Expr

/-- A declaration of variables. -/
structure Declaration where
  span : Span
  kind : DeclKind
  declarators : List Declarator

/-- A function declaration. -/
structure FunctionDecl where
  span : Span
  id : Identifier
  params : List Expr
  body : Block

/-- What stands first in the head of a `for` loop. -/
inductive ForInit where
  | declaration (decl : Declaration)
  | expression (expr : Expr)

/-- A `for` loop. -/
structure ForLoop where
  span : Span
  init : Option ForInit
  test : Option Expr
  update : Option Expr
  body : Stmt

/-- A `while` loop. -/
structure WhileLoop where
  span : Span
  test : Expr
  body : Stmt

/-- An `if` with an optional `else`. -/
structure IfElse where
  span : Span
  test : Expr
  consequent : Stmt
  alternate : Option Stmt

/-- A statement. -/
inductive Stmt where
  | declaration (decl : Declaration)
  | functionDecl (fn : FunctionDecl)
  | block (block : Block)
  | ret (span : Span) (argument : Option Expr)
  | forLoop (loop : ForLoop)
  | whileLoop (loop : WhileLoop)
  | ifElse (branch : IfElse)
  | brk (span : Span)
  | cont (span : Span)
  | throw (span : Span) (argument : Expr)
  | empty (span : Span)
  | expression (span : Span) (expr : Expr)
  | unknown (node : Unknown)

end

/-- A whole source. -/
structure Program where
  span : Span
  body : List Stmt

instance : Inhabited Expr := ⟨.this Span.none⟩
instance : Inhabited Stmt := ⟨.empty Span.none⟩
instance : Inhabited Block := ⟨⟨Span.none, []⟩⟩
instance : Inhabited Program := ⟨⟨Span.none, []⟩⟩

/-- A name that stands in no source text. -/
def Identifier.synthesized (name : String) : Identifier := ⟨Span.none, name⟩

namespace Expr

/-- The span of an expression. -/
def span : Expr → Span
  | .assignment s .. | .binary s .. | .unary s .. | .sequence s .. | .update s .. | .call s ..
  | .new s .. | .conditional s .. | .member s .. | .object s .. | .array s .. | .this s => s
  | .function fn => fn.span
  | .identifier id => id.span
  | .literal lit => lit.span
  | .unknown node => node.span

/-- The name of the kind of an expression. -/
def kind : Expr → String
  | .assignment .. => "AssignmentExpression"
  | .binary .. => "BinaryExpression"
  | .unary .. => "UnaryExpression"
  | .sequence .. => "SequenceExpression"
  | .update .. => "UpdateExpression"
  | .function .. => "FunctionExpression"
  | .call .. => "CallExpression"
  | .new .. => "NewExpression"
  | .conditional .. => "ConditionalExpression"
  | .member .. => "MemberExpression"
  | .object .. => "ObjectExpression"
  | .array .. => "ArrayExpression"
  | .this .. => "ThisExpression"
  | .identifier .. => "Identifier"
  | .literal .. => "Literal"
  | .unknown node => node.kind

/-- The name, if the expression is one. -/
def asIdentifier? : Expr → Option Identifier
  | .identifier id => some id
  | _ => none

/-- A name that stands in no source text. -/
def ident (name : String) : Expr := .identifier (Identifier.synthesized name)

/-- The number zero, standing in no source text. -/
def zero : Expr := .literal ⟨Span.none, .number (Binary64.zero false)⟩

end Expr

namespace Stmt

/-- The span of a statement. -/
def span : Stmt → Span
  | .declaration decl => decl.span
  | .functionDecl fn => fn.span
  | .block b => b.span
  | .ret s _ | .brk s | .cont s | .throw s _ | .empty s | .expression s _ => s
  | .forLoop loop => loop.span
  | .whileLoop loop => loop.span
  | .ifElse branch => branch.span
  | .unknown node => node.span

/-- The name of the kind of a statement. -/
def kind : Stmt → String
  | .declaration .. => "VariableDeclaration"
  | .functionDecl .. => "FunctionDeclaration"
  | .block .. => "BlockStatement"
  | .ret .. => "ReturnStatement"
  | .forLoop .. => "ForStatement"
  | .whileLoop .. => "WhileStatement"
  | .ifElse .. => "IfStatement"
  | .brk .. => "BreakStatement"
  | .cont .. => "ContinueStatement"
  | .throw .. => "ThrowStatement"
  | .empty .. => "EmptyStatement"
  | .expression .. => "ExpressionStatement"
  | .unknown node => node.kind

end Stmt

end IndexedLoop
