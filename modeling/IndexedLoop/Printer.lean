import IndexedLoop.Located
import IndexedLoop.Log
import IndexedLoop.Number.Decimal
import IndexedLoop.Tree.Basic

/-!
# Printing a tree

`Program.render` writes a tree as source text that reads back as the same tree. A binary expression
always stands in parentheses. Any other operand does only where its place would change the meaning:
`isLoose` expressions in an operator's place, `isAmbiguous` ones in front of a call or a property, a
signed base of `**`, and a callee of `new` that is no plain chain of names.

What has no text is left out and reported: an unknown node, a property reached in an unknown way, a
literal of an unknown kind. `Rendered` is a text with these reports in the order of the text, so
printing keeps no state. A `Printer` collects the reports of many printed nodes until they are taken.
-/

namespace IndexedLoop

/-- What cannot be printed. -/
inductive Unprintable where
  | node (kind : String)
  | access (kind : String)
  | literal (kind : String)
deriving DecidableEq, Repr

instance : Message Unprintable where
  message
    | .node kind => s!"Unknown node kind {kind}"
    | .access kind => s!"Unknown member access kind {kind}"
    | .literal kind => s!"Unknown literal kind {kind}"

/-- Text, and the report of everything that is missing in it. -/
structure Rendered where
  text : String
  faults : List (Located Unprintable)
deriving DecidableEq, Repr

namespace Rendered

/-- Text in which nothing is missing. -/
def ofText (text : String) : Rendered := ⟨text, []⟩

instance : Coe String Rendered := ⟨ofText⟩

/-- One text after the other. -/
protected def append (a b : Rendered) : Rendered := ⟨a.text ++ b.text, a.faults ++ b.faults⟩

instance : Append Rendered := ⟨Rendered.append⟩

/-- Nothing at all, in place of something at `span` that cannot be printed. A span without extent is
no place to point at. -/
def missing (what : Unprintable) (span : Span) : Rendered :=
  ⟨"", [if span.isEmpty then Located.nowhere what else Located.here what span]⟩

/-- Everything is printed. -/
def isComplete (r : Rendered) : Bool := r.faults.isEmpty

/-- The reports of a text stay, the text goes. -/
def erase (r : Rendered) : Rendered := { r with text := "" }

/-- The text in parentheses if the condition holds. -/
def wrapIf (condition : Bool) (r : Rendered) : Rendered :=
  if condition then ("(" : Rendered) ++ r ++ (")" : Rendered) else r

/-- The texts with a separator between them. -/
def join (separator : String) : List Rendered → Rendered
  | [] => ""
  | [r] => r
  | r :: rest => r ++ (separator : Rendered) ++ join separator rest

/-- The texts one after the other. -/
def concat : List Rendered → Rendered
  | [] => ""
  | r :: rest => r ++ concat rest

/-- The records that printing leaves in a log. -/
def log (r : Rendered) : List LogRecord :=
  r.faults.map fun fault => ⟨.error, s!"{message fault.cause}, rendering as empty string"⟩

end Rendered

/-- Numbers in a program are written without an exponent, an exact tie between two shortest forms
goes up, and what is not finite is written as the name of the global that holds it. -/
def numberStyle : NumberStyle where
  tie := .up
  positional := fun _ => true
  wholeFraction := false
  infinity := "Infinity"
  nan := "NaN"

namespace Expr

/-- An expression that binds looser than any operator. -/
def isLoose : Expr → Bool
  | .assignment .. | .conditional .. | .sequence .. | .function .. => true
  | _ => false

/-- An expression of which a call or a property would take only a part: `!a()` calls `a`, and `1.b`
starts with a number. -/
def isAmbiguous : Expr → Bool
  | .unary .. | .update .. => true
  | .literal ⟨_, .number _⟩ => true
  | e => e.isLoose

/-- An expression that starts with a sign, which cannot be the base of `**`. -/
def isSigned : Expr → Bool
  | .unary .. => true
  | .literal ⟨_, .number value⟩ => value.negative
  | _ => false

/-- A callee of `new` without a call in it, to which the arguments would belong. -/
def isPlainCallee : Expr → Bool
  | .identifier _ | .this _ => true
  | .member _ target _ _ => target.isPlainCallee
  | _ => false

/-- An expression whose commas would be taken for those of a list. -/
def isSequence : Expr → Bool
  | .sequence .. => true
  | _ => false

end Expr

namespace Stmt

/-- A statement that ends in an `if` without `else`, which would take an `else` that follows. -/
def endsInOpenIf : Stmt → Bool
  | .ifElse ⟨_, _, _, none⟩ => true
  | .ifElse ⟨_, _, _, some alternate⟩ => alternate.endsInOpenIf
  | .forLoop ⟨_, _, _, _, body⟩ => body.endsInOpenIf
  | .whileLoop ⟨_, _, body⟩ => body.endsInOpenIf
  | _ => false

end Stmt

/-- The text of a literal. -/
def Literal.render (lit : Literal) : Rendered :=
  match lit.value with
  | .string raw => s!"\"{raw}\""
  | .number value => numberStyle.format value
  | .boolean value => if value then "true" else "false"
  | .regExp raw => raw
  | .null => "null"
  | .other kind _ => .missing (.literal kind) lit.span

/-- The head of a function, with its parameters. -/
def functionHead (name : String) (params : List Rendered) : Rendered :=
  (s!"function {name}(" : Rendered) ++ .join ", " params ++ (")" : Rendered)

/-- An expression as a statement. A text that would start a function declaration or a block is put
into parentheses. -/
def expressionText (expr : Rendered) : Rendered :=
  .wrapIf (expr.text.startsWith "function " || expr.text.startsWith "\x7b") expr ++ (";\n" : Rendered)

/-- An `if`, with an `else` unless nothing of the alternate is printed. A consequent that would take
the `else` is put into braces. -/
def ifElseText (test consequent alternate : Rendered) (openIf : Bool) : Rendered :=
  let head := ("if (" : Rendered) ++ test ++ (")" : Rendered)
  if alternate.text.isEmpty then head ++ consequent ++ alternate
  else if openIf then
    head ++ ("\x7b\n" : Rendered) ++ consequent ++ ("\x7d else " : Rendered) ++ alternate
  else head ++ consequent ++ (" else " : Rendered) ++ alternate

mutual

/-- The text of an expression. -/
def Expr.render : Expr → Rendered
  | .assignment _ op left right =>
    left.render ++ (s!" {op.token} " : Rendered) ++ .wrapIf right.isSequence right.render
  | .binary _ op left right =>
    ("(" : Rendered) ++ .wrapIf (left.isLoose || (op == .pow && left.isSigned)) left.render
      ++ (s!" {op.token} " : Rendered) ++ .wrapIf right.isLoose right.render ++ (")" : Rendered)
  | .unary _ op argument =>
    (s!"{op.token} " : Rendered) ++ .wrapIf argument.isLoose argument.render
  | .sequence _ expressions => .join ", " (renderExprs expressions)
  | .update _ op leading argument =>
    if leading then (op.token : Rendered) ++ .wrapIf argument.isLoose argument.render
    else .wrapIf argument.isLoose argument.render ++ (op.token : Rendered)
  | .function ⟨_, id, params, body⟩ =>
    functionHead ((id.map Identifier.name).getD "") (renderListed params) ++ body.render
  | .call _ callee arguments =>
    .wrapIf callee.isAmbiguous callee.render ++ ("(" : Rendered)
      ++ .join ", " (renderListed arguments) ++ (")" : Rendered)
  | .new _ callee arguments =>
    ("new " : Rendered) ++ .wrapIf (!callee.isPlainCallee) callee.render ++ ("(" : Rendered)
      ++ .join ", " (renderListed arguments) ++ (")" : Rendered)
  | .conditional _ test consequent alternate =>
    .wrapIf test.isLoose test.render ++ ("?" : Rendered)
      ++ .wrapIf consequent.isSequence consequent.render ++ (" : " : Rendered)
      ++ .wrapIf alternate.isSequence alternate.render
  | .member span object property access =>
    let target := Rendered.wrapIf object.isAmbiguous object.render
    match access with
    | .dot => target ++ ("." : Rendered) ++ property.render
    | .bracket => target ++ ("[" : Rendered) ++ property.render ++ ("]" : Rendered)
    | .other tag => target.erase ++ .missing (.access tag) span
  | .object _ properties =>
    ("\x7b" : Rendered) ++ .join ", " (renderProperties properties) ++ ("\x7d" : Rendered)
  | .array _ elements =>
    -- a hole at the end needs a comma of its own
    let trailing := if elements.getLast?.any Option.isNone then "," else ""
    ("[" : Rendered) ++ .join ", " (renderElements elements) ++ (trailing ++ "]" : String)
  | .this _ => "this"
  | .identifier id => id.name
  | .literal lit => lit.render
  | .unknown node => .missing (.node node.kind) node.span

/-- The texts of the operands of a sequence. -/
def renderExprs : List Expr → List Rendered
  | [] => []
  | e :: rest => e.render :: renderExprs rest

/-- The texts of the members of a list, in which a sequence stands in parentheses. -/
def renderListed : List Expr → List Rendered
  | [] => []
  | e :: rest => .wrapIf e.isSequence e.render :: renderListed rest

/-- The texts of the elements of an array; a hole has none. -/
def renderElements : List (Option Expr) → List Rendered
  | [] => []
  | none :: rest => "" :: renderElements rest
  | some e :: rest => .wrapIf e.isSequence e.render :: renderElements rest

/-- The texts of the properties of an object. -/
def renderProperties : List Property → List Rendered
  | [] => []
  | ⟨_, key, value⟩ :: rest =>
    (key.render ++ (": " : Rendered) ++ .wrapIf value.isSequence value.render) :: renderProperties rest

/-- The text of a block. -/
def Block.render : Block → Rendered
  | ⟨_, body⟩ => ("\x7b\n" : Rendered) ++ .concat (renderStmts body) ++ ("\x7d" : Rendered)

/-- The texts of statements. -/
def renderStmts : List Stmt → List Rendered
  | [] => []
  | s :: rest => s.render :: renderStmts rest

/-- The text of a declaration, without what ends it. -/
def Declaration.render : Declaration → Rendered
  | ⟨_, kind, declarators⟩ =>
    (s!"{kind.token} " : Rendered) ++ .join ", " (renderDeclarators declarators)

/-- The texts of the variables of a declaration. -/
def renderDeclarators : List Declarator → List Rendered
  | [] => []
  | ⟨_, id, none⟩ :: rest => (id.name : Rendered) :: renderDeclarators rest
  | ⟨_, id, some init⟩ :: rest =>
    ((s!"{id.name} = " : Rendered) ++ .wrapIf init.isSequence init.render) :: renderDeclarators rest

/-- The text of an expression that may be absent. -/
def renderOption : Option Expr → Rendered
  | none => ""
  | some e => e.render

/-- The text of the first part of the head of a loop. -/
def renderForInit : Option ForInit → Rendered
  | none => ""
  | some (.declaration decl) => decl.render
  | some (.expression e) => e.render

/-- The text of a statement. -/
def Stmt.render : Stmt → Rendered
  | .declaration decl => decl.render ++ (";\n" : Rendered)
  | .functionDecl ⟨_, id, params, body⟩ =>
    functionHead id.name (renderListed params) ++ body.render ++ ("\n" : Rendered)
  | .block b => b.render
  | .ret _ argument => ("return " : Rendered) ++ renderOption argument ++ (";\n" : Rendered)
  | .forLoop ⟨_, init, test, update, body⟩ =>
    ("for (" : Rendered) ++ renderForInit init ++ (";" : Rendered) ++ renderOption test
      ++ (";" : Rendered) ++ renderOption update ++ (")" : Rendered) ++ body.render
  | .whileLoop ⟨_, test, body⟩ =>
    ("while (" : Rendered) ++ test.render ++ (")" : Rendered) ++ body.render
  | .ifElse ⟨_, test, consequent, none⟩ => ifElseText test.render consequent.render "" false
  | .ifElse ⟨_, test, consequent, some alternate⟩ =>
    ifElseText test.render consequent.render alternate.render consequent.endsInOpenIf
  | .brk _ => "break;\n"
  | .cont _ => "continue;\n"
  | .throw _ argument => ("throw " : Rendered) ++ argument.render ++ (";\n" : Rendered)
  | .empty _ => ";\n"
  | .expression _ expr => expressionText expr.render
  | .unknown node => .missing (.node node.kind) node.span

end

/-- The text of a function expression. -/
def Function.render (fn : Function) : Rendered := (Expr.function fn).render

/-- The text of a program. -/
def Program.render (program : Program) : Rendered := .concat (renderStmts program.body)

/-- Reports that were collected and not yet taken. -/
structure Printer where
  pending : List (Located Unprintable)
deriving DecidableEq, Repr

namespace Printer

/-- A printer that has printed nothing. -/
def new : Printer := ⟨[]⟩

/-- Hands out a text and keeps its reports. A report at a span that runs backwards is refused. -/
def print (p : Printer) (r : Rendered) : Except ReversedSpan (String × Printer) :=
  match r.faults.find? fun fault => !fault.shown with
  | some fault => .error ⟨fault.span.getD Span.none⟩
  | none => .ok (r.text, ⟨p.pending ++ r.faults⟩)

/-- Hands out the reports and forgets them. -/
def take (p : Printer) : List (Located Unprintable) × Printer := (p.pending, new)

end Printer

end IndexedLoop
