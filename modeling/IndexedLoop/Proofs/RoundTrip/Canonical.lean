import IndexedLoop.Printer
import IndexedLoop.Proofs.RoundTrip.Tokens

/-!
# Canonical trees

A tree is canonical if nothing of it gets lost on the way through its text: every node has a text, names
and literals are tokens, and no node has a shape that the text of another one has. What an assignment may
write to is a parameter, a `TargetRule`, since the grammar takes fewer targets than the tree can hold.
-/

namespace IndexedLoop

open Lexical

/-! ## Names and literals -/

/-- The words that are no names, or names only in some places. -/
def reservedWords : List String :=
  ["break", "case", "catch", "class", "const", "continue", "debugger", "default", "delete", "do", "else",
   "enum", "export", "extends", "false", "finally", "for", "function", "if", "import", "in", "instanceof",
   "new", "null", "return", "super", "switch", "this", "throw", "true", "try", "typeof", "var", "void",
   "while", "with", "let", "static", "yield", "await", "async", "of", "get", "set"]

namespace Identifier

/-- Any word, as the name of a property. -/
def IsProperty (id : Identifier) : Prop := IsName id.name.toList

/-- A word that refers to a variable. -/
def IsReference (id : Identifier) : Prop := id.IsProperty ∧ id.name ∉ reservedWords

/-- A word that can be declared. -/
def IsBinding (id : Identifier) : Prop := id.IsReference ∧ id.name ≠ "undefined"

end Identifier

/-- A regular expression with its slashes and flags. -/
def IsRegex (cs : List Char) : Prop :=
  ∃ c body flags, cs = '/' :: c :: (body ++ '/' :: flags) ∧ RegexBody (c :: body) ∧ c ∉ ['*', '?'] ∧
    ∀ flag ∈ flags, flag ∈ flagChars

namespace Constant

/-- A string or a number. -/
def IsKey : Constant → Prop
  | .string raw => StringBody raw.toList
  | .number value => value.isFinite = true ∧ value.negative = false
  | _ => False

/-- A literal that is one token. -/
def Canonical : Constant → Prop
  | .boolean _ | .null => True
  | .regExp raw => IsRegex raw.toList
  | value => value.IsKey

end Constant

/-! ## Expressions and statements -/

namespace Expr

/-- A name or a member. -/
def IsPlace : Expr → Prop
  | .identifier _ | .member .. => True
  | _ => False

/-- A name behind a point. -/
def IsProperty : Expr → Prop
  | .identifier id => id.IsProperty
  | _ => False

/-- A key of an object. -/
def IsKey : Expr → Prop
  | .identifier id => id.IsProperty
  | .literal lit => lit.value.IsKey
  | _ => False

/-- A parameter. -/
def IsParam : Expr → Prop
  | .identifier id => id.IsBinding
  | _ => False

end Expr

/-- What an assignment may write to. -/
abbrev TargetRule := AssignOp → Expr → Prop

section

variable (rule : TargetRule)

mutual

/-- The expression is canonical. -/
def Expr.Canonical : Expr → Prop
  | .assignment _ op left right => rule op left ∧ left.IsPlace ∧ left.Canonical ∧ right.Canonical
  | .binary _ _ left right => left.Canonical ∧ right.Canonical
  | .unary _ _ argument => argument.Canonical
  | .sequence _ expressions =>
    2 ≤ expressions.length ∧ (∀ e ∈ expressions, e.isSequence = false) ∧ canonicalExprs expressions
  | .update _ _ _ argument => argument.IsPlace ∧ argument.Canonical
  | .function ⟨_, id, params, body⟩ =>
    (∀ name ∈ id, name.IsBinding) ∧ (∀ p ∈ params, p.IsParam) ∧ body.Canonical
  | .call _ callee arguments => callee.Canonical ∧ canonicalExprs arguments
  | .new _ callee arguments => callee.Canonical ∧ canonicalExprs arguments
  | .conditional _ test consequent alternate =>
    test.Canonical ∧ consequent.Canonical ∧ alternate.Canonical
  | .member _ object property access =>
    object.Canonical ∧
      match access with
      | .dot => property.IsProperty
      | .bracket => property.Canonical
      | .other _ => False
  | .object _ properties => canonicalProperties properties
  | .array _ elements => canonicalElements elements
  | .this _ => True
  | .identifier id => id.IsReference
  | .literal lit => lit.value.Canonical
  | .unknown _ => False

def canonicalExprs : List Expr → Prop
  | [] => True
  | e :: rest => e.Canonical ∧ canonicalExprs rest

def canonicalElements : List (Option Expr) → Prop
  | [] => True
  | none :: rest => canonicalElements rest
  | some e :: rest => e.Canonical ∧ canonicalElements rest

def canonicalProperties : List Property → Prop
  | [] => True
  | ⟨_, key, value⟩ :: rest => key.IsKey ∧ value.Canonical ∧ canonicalProperties rest

def Block.Canonical : Block → Prop
  | ⟨_, body⟩ => canonicalStmts body

def canonicalStmts : List Stmt → Prop
  | [] => True
  | s :: rest => s.Canonical ∧ canonicalStmts rest

def Declaration.Canonical : Declaration → Prop
  | ⟨_, _, declarators⟩ => declarators ≠ [] ∧ canonicalDeclarators declarators

def canonicalDeclarators : List Declarator → Prop
  | [] => True
  | ⟨_, id, init⟩ :: rest => id.IsBinding ∧ canonicalOption init ∧ canonicalDeclarators rest

def canonicalOption : Option Expr → Prop
  | none => True
  | some e => e.Canonical

def canonicalForInit : Option ForInit → Prop
  | none => True
  | some (.declaration decl) => decl.Canonical
  | some (.expression e) => e.Canonical

/-- The statement is canonical. The consequent of an `if` with an `else` ends in no `if` without one. -/
def Stmt.Canonical : Stmt → Prop
  | .declaration decl => decl.Canonical
  | .functionDecl ⟨_, id, params, body⟩ => id.IsBinding ∧ (∀ p ∈ params, p.IsParam) ∧ body.Canonical
  | .block b => b.Canonical
  | .ret _ argument => canonicalOption argument
  | .forLoop ⟨_, init, test, update, body⟩ =>
    canonicalForInit init ∧ canonicalOption test ∧ canonicalOption update ∧ body.Canonical
  | .whileLoop ⟨_, test, body⟩ => test.Canonical ∧ body.Canonical
  | .ifElse ⟨_, test, consequent, none⟩ => test.Canonical ∧ consequent.Canonical
  | .ifElse ⟨_, test, consequent, some alternate⟩ =>
    test.Canonical ∧ consequent.Canonical ∧ consequent.endsInOpenIf = false ∧ alternate.Canonical
  | .brk _ | .cont _ | .empty _ => True
  | .throw _ argument => argument.Canonical
  | .expression _ e => e.Canonical
  | .unknown _ => False

end

/-- The program is canonical. -/
def Program.Canonical (p : Program) : Prop := canonicalStmts rule p.body

end

/-- Every place can be written to. -/
def anyTarget : TargetRule := fun _ _ => True

/-- Every place can be written to, but only a plain assignment writes to `undefined`. -/
def definedTarget : TargetRule := fun op target =>
  op ≠ .assign → ∀ id, target = .identifier id → id.name ≠ "undefined"

end IndexedLoop
