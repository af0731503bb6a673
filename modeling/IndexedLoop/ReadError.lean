import IndexedLoop.Located
import IndexedLoop.Text.Utf8

/-!
# Errors of reading

Why a source, or a piece of it, could not be read. `unsupported` is not an error of the source: it says
that the tree has no form for a construct at this place, and the nearest statement or expression around
it becomes an unknown node.
-/

namespace IndexedLoop

/-- The cause of an error of reading. -/
inductive ReadError where
  | other (text : String)
  | engine
  | language (text : String)
  | file (text : String)
  /-- The source is not well formed. -/
  | malformed
  | missing (kind : String)
  | unexpected (kind expected : String)
  | noChild (kind field : String)
  | unknownOperator (op kind : String)
  | unsupported (kind : String)
  | invalidUtf8 (fault : Utf8.Fault)
  | badNumber (literal : String)
deriving DecidableEq, Repr

namespace ReadError

/-- The wording of an error. -/
def text : ReadError → String
  | .other text => text
  | .engine => "Could not run tree-sitter"
  | .language text => s!"Failed to load the JavaScript grammar: {text}"
  | .file text => s!"File Error occured: {text}"
  | .malformed => "Syntax error"
  | .missing kind => s!"Missing {kind}"
  | .unexpected kind expected => s!"Unexpected AstNode: {kind}, expected {expected}"
  | .noChild kind field => s!"Expected child \"{field}\" on {kind} but got none"
  | .unknownOperator op kind => s!"Unknown operator {op} in {kind}"
  | .unsupported kind => s!"Unsupported syntax {kind}"
  | .invalidUtf8 fault => s!"UTF8 parser error: {fault.text}"
  | .badNumber literal => s!"Parsing number literal {literal} failed"

instance : Message ReadError := ⟨text⟩

/-- The tree has no form for a construct. -/
def isUnsupported : ReadError → Bool
  | .unsupported _ => true
  | _ => false

end ReadError

end IndexedLoop
