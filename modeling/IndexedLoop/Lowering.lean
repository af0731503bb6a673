import IndexedLoop.Log
import IndexedLoop.Number.Literal
import IndexedLoop.ReadError
import IndexedLoop.Surface.Basic
import IndexedLoop.Text.Quoted
import IndexedLoop.Tree.Basic

/-!
# From the surface tree to the program tree

Leaves get their values, parentheses go away, and a construct without a form in the tree makes the
nearest expression or statement around it unknown, with a warning in the log. What cannot be read at all
(a number that is too large, bytes that are no text) is an error.
-/

namespace IndexedLoop

/-- Lowers a piece, with a log that an error does not undo. -/
abbrev Lower := ExceptT (Located ReadError) (StateM (List LogRecord))

namespace Lower

/-- Writes a warning. -/
def warn (text : String) : Lower Unit :=
  modify fun log => log ++ [⟨.warn, text⟩]

/-- Fails at an extent of a file. -/
def failAt {α : Type} (file : String) (extent : Extent) (cause : ReadError) : Lower α :=
  throw (.here cause (extent.toSpan file))

/-- Fails because the tree has no form for a piece. -/
def unsupported {α : Type} (file : String) (p : Surface.Piece) : Lower α :=
  failAt file p.extent (.unsupported p.construct.name)

/-- Takes an unknown node for a piece whose lowering meets a construct without a form. -/
def orUnknown {α : Type} (what file : String) (p : Surface.Piece) (unknown : Unknown → α)
    (lowering : Lower α) : Lower α :=
  tryCatch lowering fun e => do
    if e.cause.isUnsupported then
      let kind := p.construct.name
      warn s!"lowering unsupported {what} {kind} to unknown node: {e.text}"
      return unknown ⟨p.extent.toSpan file, kind⟩
    else throw e

/-- Takes an unknown expression for a piece without a form. -/
def orUnknownExpr (file : String) (p : Surface.Piece) (lowering : Lower Expr) : Lower Expr :=
  orUnknown "expression" file p .unknown lowering

/-- Takes an unknown statement for a piece without a form. -/
def orUnknownStmt (file : String) (p : Surface.Piece) (lowering : Lower Stmt) : Lower Stmt :=
  orUnknown "statement" file p .unknown lowering

end Lower

namespace Surface

open Lower

/-- A name of the source as a name of the tree. -/
def Name.lower (file : String) (n : Name) : Identifier :=
  ⟨n.extent.toSpan file, n.text⟩

/-- The value of a number literal. A big integer keeps its text. -/
def numberConstant? (text : String) : Option Constant :=
  if text.endsWith "n" then some (.other "BigInt" text)
  else (NumberLiteral.read? text).map .number

/-- Gives a literal its value. -/
def Literal.lower (file : String) (l : Literal) : Lower IndexedLoop.Literal := do
  let span := l.extent.toSpan file
  match Symbol.toText l.text with
  | .error fault => failAt file l.extent (.invalidUtf8 fault)
  | .ok text =>
    match l.literalClass with
    | .boolean value => return ⟨span, .boolean value⟩
    | .null => return ⟨span, .null⟩
    | .regExp => return ⟨span, .regExp text⟩
    | .string => return ⟨span, .string (Quoted.content text)⟩
    | .number =>
      match numberConstant? text with
      | some value => return ⟨span, value⟩
      | none => failAt file l.extent (.badNumber text)

/-- Lowers a parameter. Only a plain name has a form. -/
def Binding.lower (file : String) : Binding → Lower IndexedLoop.Expr
  | .name n => return .identifier (n.lower file)
  | .pattern p => do
    let kind := p.construct.name
    warn s!"lowering parameter {kind} to unknown node"
    return .unknown ⟨p.extent.toSpan file, kind⟩

/-- Lowers a key. -/
def Key.lower (file : String) : Key → Lower IndexedLoop.Expr
  | .name n => return .identifier (n.lower file)
  | .literal l => return .literal (← l.lower file)
  | .other p => unsupported file p

mutual

/-- Lowers an expression. -/
def Expr.lower (file : String) : Expr → Lower IndexedLoop.Expr
  | .name n => return .identifier (n.lower file)
  | .this e => return .this (e.toSpan file)
  | .literal l => return .literal (← l.lower file)
  | .assignment e op target value => do
    let left ← target.lower file
    let right ← value.lower file
    return .assignment (e.toSpan file) op left right
  | .binary e op left right => do
    let left ← left.lower file
    let right ← right.lower file
    return .binary (e.toSpan file) op left right
  | .unary e op argument => return .unary (e.toSpan file) op (← argument.lower file)
  | .update e op leading argument =>
    return .update (e.toSpan file) op leading (← argument.lower file)
  | .sequence e items => return .sequence (e.toSpan file) (← Expr.lowerAll file items)
  | .conditional e test consequent alternate => do
    let test ← test.lower file
    let consequent ← consequent.lower file
    let alternate ← alternate.lower file
    return .conditional (e.toSpan file) test consequent alternate
  | .function e name fn => do
    let (params, body) ← fn.lower file
    return .function ⟨e.toSpan file, name.map (Name.lower file), params, body⟩
  | .call e callee args => do
    let callee ← callee.lower file
    return .call (e.toSpan file) callee (← Expr.lowerAll file args)
  | .new e callee args => do
    let callee ← callee.lower file
    return .new (e.toSpan file) callee (← Expr.lowerAll file args)
  | .dot e object property => do
    let object ← object.lower file
    return .member (e.toSpan file) object (.identifier (property.lower file)) .dot
  | .subscript e object index => do
    let object ← object.lower file
    return .member (e.toSpan file) object (← index.lower file) .bracket
  | .object e members =>
    orUnknownExpr file ⟨e, .objectLiteral⟩ do
      return .object (e.toSpan file) (← Member.lowerAll file members)
  | .array e elements => return .array (e.toSpan file) (← Expr.lowerElements file elements)
  | .spread e _ => orUnknownExpr file ⟨e, .spreadElement⟩ (unsupported file ⟨e, .spreadElement⟩)
  | .parens _ inner => inner.lower file
  | .other u => orUnknownExpr file u.node (unsupported file u.culprit)

/-- Lowers expressions from left to right. -/
def Expr.lowerAll (file : String) : List Expr → Lower (List IndexedLoop.Expr)
  | [] => return []
  | e :: rest => do
    let e ← e.lower file
    return e :: (← Expr.lowerAll file rest)

/-- Lowers the elements of an array from left to right. -/
def Expr.lowerElements (file : String) : List (Option Expr) → Lower (List (Option IndexedLoop.Expr))
  | [] => return []
  | none :: rest => return none :: (← Expr.lowerElements file rest)
  | some e :: rest => do
    let e ← e.lower file
    return some e :: (← Expr.lowerElements file rest)

/-- Lowers a member of an object literal. A shorthand is its own key. -/
def Member.lower (file : String) : Member → Lower Property
  | .pair e key value => do
    let key ← key.lower file
    return ⟨e.toSpan file, key, ← value.lower file⟩
  | .shorthand n =>
    return ⟨n.extent.toSpan file, .identifier (n.lower file), .identifier (n.lower file)⟩
  | .defaulted e => unsupported file ⟨e, .assignmentPattern⟩
  | .spread e _ => unsupported file ⟨e, .spreadElement⟩
  | .method e => unsupported file ⟨e, .methodDefinition⟩

/-- Lowers the members of an object literal from left to right. -/
def Member.lowerAll (file : String) : List Member → Lower (List Property)
  | [] => return []
  | m :: rest => do
    let m ← m.lower file
    return m :: (← Member.lowerAll file rest)

/-- Lowers the parameters and the body of a function. -/
def Function.lower (file : String) :
    Function → Lower (List IndexedLoop.Expr × IndexedLoop.Block)
  | .mk params body => do
    let params ← params.mapM (Binding.lower file)
    return (params, ← body.lower file)

/-- Lowers a block. -/
def Block.lower (file : String) : Block → Lower IndexedLoop.Block
  | .mk e body => return ⟨e.toSpan file, ← Stmt.lowerAll file body⟩

/-- Lowers one variable of a declaration. A pattern has no form. -/
def Declarator.lower (file : String) : Declarator → Lower IndexedLoop.Declarator
  | .mk e (.name n) none => return ⟨e.toSpan file, n.lower file, none⟩
  | .mk e (.name n) (some init) => return ⟨e.toSpan file, n.lower file, some (← init.lower file)⟩
  | .mk _ (.pattern p) _ => unsupported file p

/-- Lowers the variables of a declaration from left to right. -/
def Declarator.lowerAll (file : String) : List Declarator → Lower (List IndexedLoop.Declarator)
  | [] => return []
  | d :: rest => do
    let d ← d.lower file
    return d :: (← Declarator.lowerAll file rest)

/-- Lowers a declaration. -/
def Declaration.lower (file : String) : Declaration → Lower IndexedLoop.Declaration
  | .mk e kind declarators =>
    return ⟨e.toSpan file, kind, ← Declarator.lowerAll file declarators⟩

/-- Lowers the first clause of a loop header. -/
def ForInit.lower (file : String) : Option ForInit → Lower (Option IndexedLoop.ForInit)
  | none => return none
  | some (.declaration d) => return some (.declaration (← d.lower file))
  | some (.expression e) => return some (.expression (← e.lower file))

/-- Lowers an expression that may be left out. -/
def Expr.lowerOption (file : String) : Option Expr → Lower (Option IndexedLoop.Expr)
  | none => return none
  | some e => return some (← e.lower file)

/-- Lowers a statement that has a form in the tree, and fails for one that has none. -/
def Stmt.lowerForm (file : String) : Stmt → Lower IndexedLoop.Stmt
  | .expression e _ expr => return .expression (e.toSpan file) (← expr.lower file)
  | .declaration d => return .declaration (← d.lower file)
  | .function e flavour name fn => do
    if flavour.isAsync || flavour.isGenerator then unsupported file ⟨e, flavour.construct⟩
    else
      let (params, body) ← fn.lower file
      return .functionDecl ⟨e.toSpan file, name.lower file, params, body⟩
  | .block b => return .block (← b.lower file)
  | .ret e argument => return .ret (e.toSpan file) (← Expr.lowerOption file argument)
  | .throw e argument => return .throw (e.toSpan file) (← argument.lower file)
  | .empty e => return .empty (e.toSpan file)
  | .brk e => return .brk (e.toSpan file)
  | .cont e => return .cont (e.toSpan file)
  | .forLoop e init test update body => do
    let init ← ForInit.lower file init
    let test ← Expr.lowerOption file test
    let update ← Expr.lowerOption file update
    let body ← orUnknownStmt file body.piece (body.lowerForm file)
    return .forLoop ⟨e.toSpan file, init, test, update, body⟩
  | .whileLoop e test body => do
    let test ← test.lower file
    let body ← orUnknownStmt file body.piece (body.lowerForm file)
    return .whileLoop ⟨e.toSpan file, test, body⟩
  | .ifElse e test consequent alternate => do
    let alternate ← Stmt.lowerOption file alternate
    let test ← test.lower file
    let consequent ← orUnknownStmt file consequent.piece (consequent.lowerForm file)
    return .ifElse ⟨e.toSpan file, test, consequent, alternate⟩
  | .other p => unsupported file p

/-- Lowers a statement that may be left out. -/
def Stmt.lowerOption (file : String) : Option Stmt → Lower (Option IndexedLoop.Stmt)
  | none => return none
  | some s => return some (← orUnknownStmt file s.piece (s.lowerForm file))

/-- Lowers statements from first to last. -/
def Stmt.lowerAll (file : String) : List Stmt → Lower (List IndexedLoop.Stmt)
  | [] => return []
  | s :: rest => do
    let s ← orUnknownStmt file s.piece (s.lowerForm file)
    return s :: (← Stmt.lowerAll file rest)

end

/-- Lowers a statement. One without a form is unknown. -/
def Stmt.lower (file : String) (s : Stmt) : Lower IndexedLoop.Stmt :=
  orUnknownStmt file s.piece (s.lowerForm file)

end Surface

end IndexedLoop
