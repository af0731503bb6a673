import IndexedLoop.Proofs.TreeInduction

/-!
# Renamed trees

`Program.renamed` gives new names to the expressions that are names: references, parameters, properties behind a dot and keys of
objects. The names of variables and of functions are no expressions, and they stay. Renaming twice is renaming once
(`Program.renamed_renamed`).
-/

namespace IndexedLoop

section

variable (f : String → String)

def Identifier.renamed (id : Identifier) : Identifier := { id with name := f id.name }

mutual

/-- The expression with a new name for each expression in it that is a name. -/
def Expr.renamed : Expr → Expr
  | .assignment span op left right => .assignment span op left.renamed right.renamed
  | .binary span op left right => .binary span op left.renamed right.renamed
  | .unary span op argument => .unary span op argument.renamed
  | .sequence span expressions => .sequence span (renamedExprs expressions)
  | .update span op leading argument => .update span op leading argument.renamed
  | .function ⟨span, id, params, body⟩ => .function ⟨span, id, renamedExprs params, body.renamed⟩
  | .call span callee arguments => .call span callee.renamed (renamedExprs arguments)
  | .new span callee arguments => .new span callee.renamed (renamedExprs arguments)
  | .conditional span test consequent alternate =>
    .conditional span test.renamed consequent.renamed alternate.renamed
  | .member span object property access => .member span object.renamed property.renamed access
  | .object span properties => .object span (renamedProperties properties)
  | .array span elements => .array span (renamedElements elements)
  | .this span => .this span
  | .identifier id => .identifier (id.renamed f)
  | .literal lit => .literal lit
  | .unknown node => .unknown node

def renamedExprs : List Expr → List Expr
  | [] => []
  | e :: rest => e.renamed :: renamedExprs rest

def renamedElements : List (Option Expr) → List (Option Expr)
  | [] => []
  | none :: rest => none :: renamedElements rest
  | some e :: rest => some e.renamed :: renamedElements rest

def renamedProperties : List Property → List Property
  | [] => []
  | ⟨span, key, value⟩ :: rest => ⟨span, key.renamed, value.renamed⟩ :: renamedProperties rest

def Block.renamed : Block → Block
  | ⟨span, body⟩ => ⟨span, renamedStmts body⟩

def renamedStmts : List Stmt → List Stmt
  | [] => []
  | s :: rest => s.renamed :: renamedStmts rest

/-- The declaration with new names in the initial values. The variables keep theirs. -/
def Declaration.renamed : Declaration → Declaration
  | ⟨span, kind, declarators⟩ => ⟨span, kind, renamedDeclarators declarators⟩

def renamedDeclarators : List Declarator → List Declarator
  | [] => []
  | ⟨span, id, init⟩ :: rest => ⟨span, id, renamedOption init⟩ :: renamedDeclarators rest

def renamedOption : Option Expr → Option Expr
  | none => none
  | some e => some e.renamed

def renamedForInit : Option ForInit → Option ForInit
  | none => none
  | some (.declaration decl) => some (.declaration decl.renamed)
  | some (.expression e) => some (.expression e.renamed)

def renamedBranch : Option Stmt → Option Stmt
  | none => none
  | some s => some s.renamed

/-- The statement with a new name for each expression in it that is a name. -/
def Stmt.renamed : Stmt → Stmt
  | .declaration decl => .declaration decl.renamed
  | .functionDecl ⟨span, id, params, body⟩ => .functionDecl ⟨span, id, renamedExprs params, body.renamed⟩
  | .block b => .block b.renamed
  | .ret span argument => .ret span (renamedOption argument)
  | .forLoop ⟨span, init, test, update, body⟩ =>
    .forLoop ⟨span, renamedForInit init, renamedOption test, renamedOption update, body.renamed⟩
  | .whileLoop ⟨span, test, body⟩ => .whileLoop ⟨span, test.renamed, body.renamed⟩
  | .ifElse ⟨span, test, consequent, alternate⟩ =>
    .ifElse ⟨span, test.renamed, consequent.renamed, renamedBranch alternate⟩
  | .brk span => .brk span
  | .cont span => .cont span
  | .throw span argument => .throw span argument.renamed
  | .empty span => .empty span
  | .expression span e => .expression span e.renamed
  | .unknown node => .unknown node

end

/-- The program with a new name for each expression in it that is a name. -/
def Program.renamed (p : Program) : Program := { p with body := renamedStmts f p.body }

/-! ## Renaming twice and not at all -/

theorem renamed_comp (g : String → String) : TreeLaw.Holds
    { expr e := (e.renamed f).renamed g = e.renamed (g ∘ f)
      exprs es := renamedExprs g (renamedExprs f es) = renamedExprs (g ∘ f) es
      elements es := renamedElements g (renamedElements f es) = renamedElements (g ∘ f) es
      properties ps := renamedProperties g (renamedProperties f ps) = renamedProperties (g ∘ f) ps
      block b := (b.renamed f).renamed g = b.renamed (g ∘ f)
      stmts ss := renamedStmts g (renamedStmts f ss) = renamedStmts (g ∘ f) ss
      declaration d := (d.renamed f).renamed g = d.renamed (g ∘ f)
      declarators ds := renamedDeclarators g (renamedDeclarators f ds) = renamedDeclarators (g ∘ f) ds
      option e := renamedOption g (renamedOption f e) = renamedOption (g ∘ f) e
      forInit init := renamedForInit g (renamedForInit f init) = renamedForInit (g ∘ f) init
      stmt s := (s.renamed f).renamed g = s.renamed (g ∘ f) } := by
  refine TreeLaw.Closed.holds ?_
  constructor
  all_goals
    dsimp only
    intros
    simp only [Expr.renamed, Identifier.renamed, Function.comp_apply, renamedExprs, renamedElements, renamedProperties,
      Block.renamed, renamedStmts, Declaration.renamed, renamedDeclarators, renamedOption, renamedForInit,
      renamedBranch, Stmt.renamed, *]

theorem renamed_id : TreeLaw.Holds
    { expr e := e.renamed id = e
      exprs es := renamedExprs id es = es
      elements es := renamedElements id es = es
      properties ps := renamedProperties id ps = ps
      block b := b.renamed id = b
      stmts ss := renamedStmts id ss = ss
      declaration d := d.renamed id = d
      declarators ds := renamedDeclarators id ds = ds
      option e := renamedOption id e = e
      forInit init := renamedForInit id init = init
      stmt s := s.renamed id = s } := by
  refine TreeLaw.Closed.holds ?_
  constructor
  all_goals
    dsimp only
    intros
    simp only [Expr.renamed, Identifier.renamed, id, renamedExprs, renamedElements, renamedProperties, Block.renamed,
      renamedStmts, Declaration.renamed, renamedDeclarators, renamedOption, renamedForInit, renamedBranch,
      Stmt.renamed, *]

theorem Program.renamed_renamed (g : String → String) (p : Program) : (p.renamed f).renamed g = p.renamed (g ∘ f) :=
  congrArg (Program.mk p.span) ((renamed_comp f g).stmts p.body)

theorem Program.renamed_eq_self (p : Program) : p.renamed id = p :=
  congrArg (Program.mk p.span) (renamed_id.stmts p.body)

end

end IndexedLoop
