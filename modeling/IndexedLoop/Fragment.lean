import IndexedLoop.Grammar.Program
import IndexedLoop.Lowering

/-!
# Reading a fragment

A fragment is one statement of a text, read as what is asked for: an expression, a statement, a
function, or a statement of one kind. What is asked for has to be what stands there; only an expression
or a statement may be unknown.
-/

namespace IndexedLoop

/-- What a fragment can be read as. -/
inductive FragmentKind where
  | expr
  | stmt
  | identifier
  | literal
  | function
  | object
  | array
  | block
  | declaration
  | declarator
  | functionDecl
  | forLoop
deriving DecidableEq, Repr

/-- A fragment. -/
inductive Fragment where
  | expr (expr : Expr)
  | stmt (stmt : Stmt)
  | function (fn : Function)
  /-- A statement of the kind that was asked for. -/
  | exactly (stmt : Stmt)

namespace Fragment

open Surface Lower

/-- Fails because a statement is not what is expected. -/
def unexpected {α : Type} (s : Surface.Stmt) (expected : Construct) : Lower α :=
  let piece := s.piece
  failAt "" piece.extent (.unexpected piece.construct.name expected.name)

/-- Reads an expression. Any other statement is an unknown expression. -/
def lowerExpr (s : Surface.Stmt) : Lower IndexedLoop.Expr :=
  match s with
  | .expression _ _ e => e.lower ""
  | _ => orUnknownExpr "" s.piece (unsupported "" s.piece)

/-- Reads a declared function as a function. A generator will do, an async function will not. -/
def lowerFunction (s : Surface.Stmt) : Lower IndexedLoop.Function :=
  match s with
  | .function e flavour name fn => do
    if flavour.isAsync then unsupported "" s.piece
    else
      let (params, body) ← fn.lower ""
      return ⟨e.toSpan "", some (name.lower ""), params, body⟩
  | _ =>
    let piece := s.piece
    failAt "" piece.extent (.noChild piece.construct.name "parameters")

/-- Reads a statement of one kind. -/
def lowerExactly (s : Surface.Stmt) (expected : Construct) (fits : Bool) : Lower Fragment :=
  if fits then return .exactly (← s.lowerForm "") else unexpected s expected

/-- Reads a statement as what is asked for. -/
def lower (kind : FragmentKind) (s : Surface.Stmt) : Lower Fragment :=
  match kind with
  | .expr => return .expr (← lowerExpr s)
  | .stmt => return .stmt (← s.lower "")
  | .function => return .function (← lowerFunction s)
  | .identifier | .literal => unsupported "" s.piece
  | .object => unexpected s .objectLiteral
  | .array => unexpected s .arrayLiteral
  | .declarator => unexpected s .variableDeclarator
  | .block => lowerExactly s .block (s matches .block _)
  | .declaration => lowerExactly s .variableDeclaration (s matches .declaration _)
  | .functionDecl =>
    lowerExactly s .functionDeclaration (s.piece.construct = .functionDeclaration)
  | .forLoop => lowerExactly s .forStatement (s matches .forLoop ..)

/-- Reads a text of one statement. A text that is not well formed, and one of more or fewer statements,
are errors. -/
def readOne {α : Type} (lowering : Surface.Stmt → Lower α) (text : String) :
    Except (Located ReadError) α :=
  match Surface.Program.read? (Symbol.ofString text) with
  | none => .error (.nowhere .malformed)
  | some ⟨_, [s]⟩ => ((lowering s).run []).1
  | some ⟨_, body⟩ => .error (.nowhere (.other s!"Expected one statement, had {body.length}"))

/-- Reads a text of one statement as what is asked for. -/
def ofText (kind : FragmentKind) (text : String) : Except (Located ReadError) Fragment :=
  readOne (lower kind) text

/-- Reads a text of one statement as an expression. -/
def exprOfText (text : String) : Except (Located ReadError) IndexedLoop.Expr :=
  readOne lowerExpr text

end Fragment

end IndexedLoop
