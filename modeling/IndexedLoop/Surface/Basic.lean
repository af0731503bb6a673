import IndexedLoop.Surface.Construct
import IndexedLoop.Surface.Cursor
import IndexedLoop.Tree.Operator

/-!
# The surface tree

What the grammar finds in a source: every piece with its extent, leaves with their text, parentheses
kept. A construct that the program tree cannot hold is an `Unsupported` node without its contents.
-/

namespace IndexedLoop.Surface

/-- A word at its place. -/
structure Name where
  extent : Extent
  text : String
deriving DecidableEq, Inhabited, Repr

/-- The classes of literals. -/
inductive LiteralClass where
  | number
  | string
  | regExp
  | boolean (value : Bool)
  | null
deriving DecidableEq, Inhabited, Repr

/-- A literal as it is written. -/
structure Literal where
  extent : Extent
  literalClass : LiteralClass
  text : List Symbol
deriving DecidableEq, Inhabited, Repr

/-- A piece of a source known by its kind alone. -/
structure Piece where
  extent : Extent
  construct : Construct
deriving DecidableEq, Inhabited, Repr

/-- A construct that the program tree cannot hold, and the piece of it that is to blame, which may be
the construct itself. -/
structure Unsupported where
  node : Piece
  culprit : Piece
deriving DecidableEq, Inhabited, Repr

namespace Unsupported

/-- A construct that is to blame itself. -/
def itself (extent : Extent) (construct : Construct) : Unsupported :=
  ⟨⟨extent, construct⟩, ⟨extent, construct⟩⟩

end Unsupported

/-- What a parameter or a declarator binds. -/
inductive Binding where
  | name (name : Name)
  | pattern (piece : Piece)
deriving DecidableEq, Inhabited, Repr

/-- The key of a property. -/
inductive Key where
  | name (name : Name)
  | literal (literal : Literal)
  | other (piece : Piece)
deriving DecidableEq, Inhabited, Repr

/-- The forms of a function that its keyword and star give. -/
structure Flavour where
  isAsync : Bool
  isGenerator : Bool
deriving DecidableEq, Inhabited, Repr

mutual

/-- An expression. -/
inductive Expr where
  | name (name : Name)
  | this (extent : Extent)
  | literal (literal : Literal)
  | assignment (extent : Extent) (op : AssignOp) (target value : Expr)
  | binary (extent : Extent) (op : BinaryOp) (left right : Expr)
  | unary (extent : Extent) (op : UnaryOp) (argument : Expr)
  | update (extent : Extent) (op : UpdateOp) (leading : Bool) (argument : Expr)
  | sequence (extent : Extent) (items : List Expr)
  | conditional (extent : Extent) (test consequent alternate : Expr)
  | function (extent : Extent) (name : Option Name) (fn : Function)
  | call (extent : Extent) (callee : Expr) (args : List Expr)
  | new (extent : Extent) (callee : Expr) (args : List Expr)
  | dot (extent : Extent) (object : Expr) (property : Name)
  | subscript (extent : Extent) (object index : Expr)
  | object (extent : Extent) (members : List Member)
  /-- An array literal; a hole is an element that is not there. -/
  | array (extent : Extent) (elements : List (Option Expr))
  | spread (extent : Extent) (inner : Expr)
  | parens (extent : Extent) (inner : Expr)
  | other (node : Unsupported)

/-- A member of an object literal. -/
inductive Member where
  | pair (extent : Extent) (key : Key) (value : Expr)
  | shorthand (name : Name)
  /-- A name with a default, which only a pattern may hold. -/
  | defaulted (extent : Extent)
  | spread (extent : Extent) (inner : Expr)
  | method (extent : Extent)

/-- The parameters and the body of a function. -/
inductive Function where
  | mk (params : List Binding) (body : Block)

/-- Statements in braces. -/
inductive Block where
  | mk (extent : Extent) (body : List Stmt)

/-- One variable of a declaration. -/
inductive Declarator where
  | mk (extent : Extent) (target : Binding) (init : Option Expr)

/-- A declaration of variables. -/
inductive Declaration where
  | mk (extent : Extent) (kind : DeclKind) (declarators : List Declarator)

/-- The first clause of a `for` header. -/
inductive ForInit where
  | declaration (declaration : Declaration)
  | expression (expr : Expr)

/-- A statement. -/
inductive Stmt where
  /-- An expression, and whether a semicolon is written behind it. -/
  | expression (extent : Extent) (closed : Bool) (expr : Expr)
  | declaration (declaration : Declaration)
  | function (extent : Extent) (flavour : Flavour) (name : Name) (fn : Function)
  | block (block : Block)
  | ret (extent : Extent) (argument : Option Expr)
  | throw (extent : Extent) (argument : Expr)
  | empty (extent : Extent)
  | brk (extent : Extent)
  | cont (extent : Extent)
  | forLoop (extent : Extent) (init : Option ForInit) (test update : Option Expr) (body : Stmt)
  | whileLoop (extent : Extent) (test : Expr) (body : Stmt)
  | ifElse (extent : Extent) (test : Expr) (consequent : Stmt) (alternate : Option Stmt)
  | other (piece : Piece)

end

instance : Inhabited Expr := ⟨.this default⟩

instance : Inhabited Stmt := ⟨.empty default⟩

instance : Inhabited Block := ⟨.mk default []⟩

instance : Inhabited Function := ⟨.mk [] default⟩

/-- A source. -/
structure Program where
  extent : Extent
  body : List Stmt
deriving Inhabited

namespace Key

def extent : Key → Extent
  | .name n => n.extent
  | .literal l => l.extent
  | .other p => p.extent

end Key

namespace Binding

def extent : Binding → Extent
  | .name n => n.extent
  | .pattern p => p.extent

end Binding

namespace Expr

def extent : Expr → Extent
  | .name n => n.extent
  | .literal l => l.extent
  | .other u => u.node.extent
  | .this e | .assignment e .. | .binary e .. | .unary e .. | .update e .. | .sequence e _
  | .conditional e .. | .function e .. | .call e .. | .new e .. | .dot e .. | .subscript e ..
  | .object e _ | .array e _ | .spread e _ | .parens e _ => e

end Expr

namespace Block

def extent : Block → Extent
  | .mk e _ => e

end Block

namespace Declaration

def extent : Declaration → Extent
  | .mk e .. => e

/-- Declarations with `var` have a construct of their own. -/
def construct : Declaration → Construct
  | .mk _ .var _ => .variableDeclaration
  | .mk .. => .lexicalDeclaration

end Declaration

namespace Flavour

/-- The construct of a function declaration. -/
def construct (f : Flavour) : Construct :=
  if f.isGenerator then .generatorFunctionDeclaration else .functionDeclaration

end Flavour

namespace Stmt

/-- The kind and the extent of a statement. -/
def piece : Stmt → Piece
  | .expression e _ _ => ⟨e, .expressionStatement⟩
  | .declaration d => ⟨d.extent, d.construct⟩
  | .function e f .. => ⟨e, f.construct⟩
  | .block b => ⟨b.extent, .block⟩
  | .ret e _ => ⟨e, .returnStatement⟩
  | .throw e _ => ⟨e, .throwStatement⟩
  | .empty e => ⟨e, .emptyStatement⟩
  | .brk e => ⟨e, .breakStatement⟩
  | .cont e => ⟨e, .continueStatement⟩
  | .forLoop e .. => ⟨e, .forStatement⟩
  | .whileLoop e .. => ⟨e, .whileStatement⟩
  | .ifElse e .. => ⟨e, .ifStatement⟩
  | .other p => p

end Stmt

end IndexedLoop.Surface
