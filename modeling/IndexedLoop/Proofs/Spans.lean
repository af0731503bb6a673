import IndexedLoop.Tree.Basic

/-!
# Trees up to spans

`bare` takes the spans off a tree. Two trees are equal up to spans if their bare trees are equal.
-/

namespace IndexedLoop

/-- The name without its span. -/
def Identifier.bare (id : Identifier) : Identifier := Identifier.synthesized id.name

/-- The literal without its span. -/
def Literal.bare (lit : Literal) : Literal := { lit with span := .none }

/-- The node without its span. -/
def Unknown.bare (node : Unknown) : Unknown := { node with span := .none }

mutual

/-- The expression without its spans. -/
def Expr.bare : Expr → Expr
  | .assignment _ op left right => .assignment .none op left.bare right.bare
  | .binary _ op left right => .binary .none op left.bare right.bare
  | .unary _ op argument => .unary .none op argument.bare
  | .sequence _ expressions => .sequence .none (bareExprs expressions)
  | .update _ op leading argument => .update .none op leading argument.bare
  | .function fn => .function fn.bare
  | .call _ callee arguments => .call .none callee.bare (bareExprs arguments)
  | .new _ callee arguments => .new .none callee.bare (bareExprs arguments)
  | .conditional _ test consequent alternate =>
    .conditional .none test.bare consequent.bare alternate.bare
  | .member _ object property access => .member .none object.bare property.bare access
  | .object _ properties => .object .none (bareProperties properties)
  | .array _ elements => .array .none (bareElements elements)
  | .this _ => .this .none
  | .identifier id => .identifier id.bare
  | .literal lit => .literal lit.bare
  | .unknown node => .unknown node.bare

def bareExprs : List Expr → List Expr
  | [] => []
  | e :: rest => e.bare :: bareExprs rest

def bareElements : List (Option Expr) → List (Option Expr)
  | [] => []
  | none :: rest => none :: bareElements rest
  | some e :: rest => some e.bare :: bareElements rest

def bareProperties : List Property → List Property
  | [] => []
  | ⟨_, key, value⟩ :: rest => ⟨.none, key.bare, value.bare⟩ :: bareProperties rest

def Function.bare : Function → Function
  | ⟨_, id, params, body⟩ => ⟨.none, id.map Identifier.bare, bareExprs params, body.bare⟩

def Block.bare : Block → Block
  | ⟨_, body⟩ => ⟨.none, bareStmts body⟩

def bareStmts : List Stmt → List Stmt
  | [] => []
  | s :: rest => s.bare :: bareStmts rest

def bareDeclarators : List Declarator → List Declarator
  | [] => []
  | ⟨_, id, init⟩ :: rest => ⟨.none, id.bare, bareOption init⟩ :: bareDeclarators rest

def Declaration.bare : Declaration → Declaration
  | ⟨_, kind, declarators⟩ => ⟨.none, kind, bareDeclarators declarators⟩

def bareOption : Option Expr → Option Expr
  | none => none
  | some e => some e.bare

def bareForInit : Option ForInit → Option ForInit
  | none => none
  | some (.declaration decl) => some (.declaration decl.bare)
  | some (.expression e) => some (.expression e.bare)

/-- The statement without its spans. -/
def Stmt.bare : Stmt → Stmt
  | .declaration decl => .declaration decl.bare
  | .functionDecl ⟨_, id, params, body⟩ => .functionDecl ⟨.none, id.bare, bareExprs params, body.bare⟩
  | .block b => .block b.bare
  | .ret _ argument => .ret .none (bareOption argument)
  | .forLoop ⟨_, init, test, update, body⟩ =>
    .forLoop ⟨.none, bareForInit init, bareOption test, bareOption update, body.bare⟩
  | .whileLoop ⟨_, test, body⟩ => .whileLoop ⟨.none, test.bare, body.bare⟩
  | .ifElse ⟨_, test, consequent, none⟩ => .ifElse ⟨.none, test.bare, consequent.bare, none⟩
  | .ifElse ⟨_, test, consequent, some alternate⟩ =>
    .ifElse ⟨.none, test.bare, consequent.bare, some alternate.bare⟩
  | .brk _ => .brk .none
  | .cont _ => .cont .none
  | .throw _ argument => .throw .none argument.bare
  | .empty _ => .empty .none
  | .expression _ e => .expression .none e.bare
  | .unknown node => .unknown node.bare

end

/-- The program without its spans. -/
def Program.bare (p : Program) : Program := ⟨.none, bareStmts p.body⟩

end IndexedLoop
