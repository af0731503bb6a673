import IndexedLoop.Proofs.Operands.Row

/-!
# Trees that are spelled out

A tree is spelled out if every node of it has a text, its names, strings and regular expressions are tokens, an
assignment writes to a name or a member, and a point stands in front of a name. Beyond that it may have any shape: a
sequence of one operand or of none, an update of a number, a property whose key is a call.
-/

namespace IndexedLoop

open Lexical

/-- A word that can be an operand. -/
def Identifier.Spelled (id : Identifier) : Prop := id.IsProperty ∧ id.name ∉ Scan.steeringWords

/-- A literal that is one token, or a sign and a token. -/
def Constant.Spelled : Constant → Prop
  | .string raw => StringBody raw.toList
  | .regExp raw => IsRegex raw.toList
  | .other .. => False
  | .number _ | .boolean _ | .null => True

mutual

/-- The expression is spelled out. -/
def Expr.Spelled : Expr → Prop
  | .assignment _ _ left right => left.IsPlace ∧ left.Spelled ∧ right.Spelled
  | .binary _ _ left right => left.Spelled ∧ right.Spelled
  | .unary _ _ argument => argument.Spelled
  | .sequence _ expressions => spelledExprs expressions
  | .update _ _ _ argument => argument.Spelled
  | .function ⟨_, id, params, body⟩ => (∀ name ∈ id, name.IsProperty) ∧ spelledExprs params ∧ body.Spelled
  | .call _ callee arguments => callee.Spelled ∧ spelledExprs arguments
  | .new _ callee arguments => callee.Spelled ∧ spelledExprs arguments
  | .conditional _ test consequent alternate => test.Spelled ∧ consequent.Spelled ∧ alternate.Spelled
  | .member _ object property access =>
    object.Spelled ∧
      match access with
      | .dot => property.IsProperty
      | .bracket => property.Spelled
      | .other _ => False
  | .object _ properties => spelledProperties properties
  | .array _ elements => spelledElements elements
  | .this _ => True
  | .identifier id => id.Spelled
  | .literal lit => lit.value.Spelled
  | .unknown _ => False

def spelledExprs : List Expr → Prop
  | [] => True
  | e :: rest => e.Spelled ∧ spelledExprs rest

def spelledElements : List (Option Expr) → Prop
  | [] => True
  | none :: rest => spelledElements rest
  | some e :: rest => e.Spelled ∧ spelledElements rest

/-- As the key of a property any word is a name. -/
def spelledProperties : List Property → Prop
  | [] => True
  | ⟨_, key, value⟩ :: rest => (key.IsProperty ∨ key.Spelled) ∧ value.Spelled ∧ spelledProperties rest

def Block.Spelled : Block → Prop
  | ⟨_, body⟩ => spelledStmts body

def spelledStmts : List Stmt → Prop
  | [] => True
  | s :: rest => s.Spelled ∧ spelledStmts rest

def Declaration.Spelled : Declaration → Prop
  | ⟨_, _, declarators⟩ => spelledDeclarators declarators

def spelledDeclarators : List Declarator → Prop
  | [] => True
  | ⟨_, id, init⟩ :: rest => id.Spelled ∧ spelledOption init ∧ spelledDeclarators rest

def spelledOption : Option Expr → Prop
  | none => True
  | some e => e.Spelled

def spelledForInit : Option ForInit → Prop
  | none => True
  | some (.declaration decl) => decl.Spelled
  | some (.expression e) => e.Spelled

/-- The statement is spelled out. -/
def Stmt.Spelled : Stmt → Prop
  | .declaration decl => decl.Spelled
  | .functionDecl ⟨_, id, params, body⟩ => id.IsProperty ∧ spelledExprs params ∧ body.Spelled
  | .block b => b.Spelled
  | .ret _ argument => spelledOption argument
  | .forLoop ⟨_, init, test, update, body⟩ =>
    spelledForInit init ∧ spelledOption test ∧ spelledOption update ∧ body.Spelled
  | .whileLoop ⟨_, test, body⟩ => test.Spelled ∧ body.Spelled
  | .ifElse ⟨_, test, consequent, none⟩ => test.Spelled ∧ consequent.Spelled
  | .ifElse ⟨_, test, consequent, some alternate⟩ => test.Spelled ∧ consequent.Spelled ∧ alternate.Spelled
  | .brk _ | .cont _ | .empty _ => True
  | .throw _ argument => argument.Spelled
  | .expression _ e => e.Spelled
  | .unknown _ => False

end

end IndexedLoop
