import IndexedLoop.Tree.Weight

/-!
# Walks that change a tree

A walk meets every node of a tree before the nodes inside it and may change the node it meets; it then
goes on inside what it left there. The changes are `Hooks`, one for each kind of node, and they pass a
state along. A hook may put anything in place of a node that is not heavier (`Tree/Weight`), so a walk
always ends.

Each kind of node has a `walk`, which applies the hook and then descends, and a `descend`, which walks
the nodes inside and puts the node together again.
-/

namespace IndexedLoop

/-- What a walk does to the nodes it meets. -/
structure Hooks (σ : Type) where
  program : Program → σ → Program × σ
  stmt : Stmt → σ → Stmt × σ
  block : Block → σ → Block × σ
  declaration : Declaration → σ → Declaration × σ
  functionDecl : FunctionDecl → σ → FunctionDecl × σ
  forLoop : ForLoop → σ → ForLoop × σ
  whileLoop : WhileLoop → σ → WhileLoop × σ
  ifElse : IfElse → σ → IfElse × σ
  function : Function → σ → Function × σ
  expr : Expr → σ → Expr × σ
  stmt_le (s : Stmt) (st : σ) : (stmt s st).1.weight ≤ s.weight
  block_le (b : Block) (st : σ) : (block b st).1.weight ≤ b.weight
  declaration_le (d : Declaration) (st : σ) : (declaration d st).1.weight ≤ d.weight
  functionDecl_le (f : FunctionDecl) (st : σ) : (functionDecl f st).1.weight ≤ f.weight
  forLoop_le (l : ForLoop) (st : σ) : (forLoop l st).1.weight ≤ l.weight
  whileLoop_le (l : WhileLoop) (st : σ) : (whileLoop l st).1.weight ≤ l.weight
  ifElse_le (i : IfElse) (st : σ) : (ifElse i st).1.weight ≤ i.weight
  function_le (f : Function) (st : σ) : (function f st).1.weight ≤ f.weight
  expr_le (e : Expr) (st : σ) : (expr e st).1.weight ≤ e.weight

/-- The hooks that change nothing. -/
def Hooks.idle (σ : Type) : Hooks σ where
  program p st := (p, st)
  stmt s st := (s, st)
  block b st := (b, st)
  declaration d st := (d, st)
  functionDecl f st := (f, st)
  forLoop l st := (l, st)
  whileLoop l st := (l, st)
  ifElse i st := (i, st)
  function f st := (f, st)
  expr e st := (e, st)
  stmt_le _ _ := Nat.le_refl _
  block_le _ _ := Nat.le_refl _
  declaration_le _ _ := Nat.le_refl _
  functionDecl_le _ _ := Nat.le_refl _
  forLoop_le _ _ := Nat.le_refl _
  whileLoop_le _ _ := Nat.le_refl _
  ifElse_le _ _ := Nat.le_refl _
  function_le _ _ := Nat.le_refl _
  expr_le _ _ := Nat.le_refl _

variable {σ : Type}

mutual

/-- Changes an expression and goes on inside it. -/
def walkExpr (h : Hooks σ) (e : Expr) (st : σ) : Expr × σ :=
  let r := h.expr e st
  descendExpr h r.1 r.2
termination_by 3 * e.weight + 1
decreasing_by
  have := h.expr_le e st
  omega

/-- Walks the nodes inside an expression. -/
def descendExpr (h : Hooks σ) (e : Expr) (st : σ) : Expr × σ :=
  match e with
  | .assignment span op left right =>
    let l := walkExpr h left st
    let r := walkExpr h right l.2
    (.assignment span op l.1 r.1, r.2)
  | .binary span op left right =>
    let l := walkExpr h left st
    let r := walkExpr h right l.2
    (.binary span op l.1 r.1, r.2)
  | .unary span op argument =>
    let a := walkExpr h argument st
    (.unary span op a.1, a.2)
  | .sequence span expressions =>
    let es := walkExprs h expressions st
    (.sequence span es.1, es.2)
  | .update span op leading argument =>
    let a := walkExpr h argument st
    (.update span op leading a.1, a.2)
  | .function fn =>
    let f := walkFunction h fn st
    (.function f.1, f.2)
  | .call span callee arguments =>
    let c := walkExpr h callee st
    let as := walkExprs h arguments c.2
    (.call span c.1 as.1, as.2)
  | .new span callee arguments =>
    let c := walkExpr h callee st
    let as := walkExprs h arguments c.2
    (.new span c.1 as.1, as.2)
  | .conditional span test consequent alternate =>
    let t := walkExpr h test st
    let c := walkExpr h consequent t.2
    let a := walkExpr h alternate c.2
    (.conditional span t.1 c.1 a.1, a.2)
  | .member span object property access =>
    let o := walkExpr h object st
    let p := walkExpr h property o.2
    (.member span o.1 p.1 access, p.2)
  | .object span properties =>
    let ps := walkProperties h properties st
    (.object span ps.1, ps.2)
  | .array span elements =>
    let es := walkElements h elements st
    (.array span es.1, es.2)
  | .this span => (.this span, st)
  | .identifier id => (.identifier id, st)
  | .literal lit => (.literal lit, st)
  | .unknown node => (.unknown node, st)
termination_by 3 * e.weight
decreasing_by all_goals (simp only [Expr.weight]; omega)

/-- Walks expressions from left to right. -/
def walkExprs (h : Hooks σ) (es : List Expr) (st : σ) : List Expr × σ :=
  match es with
  | [] => ([], st)
  | e :: rest =>
    let x := walkExpr h e st
    let xs := walkExprs h rest x.2
    (x.1 :: xs.1, xs.2)
termination_by 3 * weightOfExprs es + 2
decreasing_by all_goals (simp only [weightOfExprs]; omega)

/-- Walks the elements of an array, holes aside. -/
def walkElements (h : Hooks σ) (es : List (Option Expr)) (st : σ) : List (Option Expr) × σ :=
  match es with
  | [] => ([], st)
  | none :: rest =>
    let xs := walkElements h rest st
    (none :: xs.1, xs.2)
  | some e :: rest =>
    let x := walkExpr h e st
    let xs := walkElements h rest x.2
    (some x.1 :: xs.1, xs.2)
termination_by 3 * weightOfElements es + 2
decreasing_by all_goals (simp only [weightOfElements]; omega)

/-- Walks the keys and values of an object. -/
def walkProperties (h : Hooks σ) (ps : List Property) (st : σ) : List Property × σ :=
  match ps with
  | [] => ([], st)
  | ⟨span, key, value⟩ :: rest =>
    let k := walkExpr h key st
    let v := walkExpr h value k.2
    let xs := walkProperties h rest v.2
    (⟨span, k.1, v.1⟩ :: xs.1, xs.2)
termination_by 3 * weightOfProperties ps + 2
decreasing_by all_goals (simp only [weightOfProperties]; omega)

/-- Changes a function expression and walks what it left: the parameters, then the body. -/
def walkFunction (h : Hooks σ) (f : Function) (st : σ) : Function × σ :=
  let r := h.function f st
  let ps := walkExprs h r.1.params r.2
  let b := walkBlock h r.1.body ps.2
  (⟨r.1.span, r.1.id, ps.1, b.1⟩, b.2)
termination_by 3 * f.weight
decreasing_by all_goals (have le := h.function_le f st; rw [Function.weight_eq] at le; omega)

/-- Changes a block and walks the statements it left. -/
def walkBlock (h : Hooks σ) (b : Block) (st : σ) : Block × σ :=
  let r := h.block b st
  let ss := walkStmts h r.1.body r.2
  (⟨r.1.span, ss.1⟩, ss.2)
termination_by 3 * b.weight
decreasing_by all_goals (have le := h.block_le b st; rw [Block.weight_eq] at le; omega)

/-- Walks statements from first to last. -/
def walkStmts (h : Hooks σ) (ss : List Stmt) (st : σ) : List Stmt × σ :=
  match ss with
  | [] => ([], st)
  | s :: rest =>
    let x := walkStmt h s st
    let xs := walkStmts h rest x.2
    (x.1 :: xs.1, xs.2)
termination_by 3 * weightOfStmts ss + 2
decreasing_by all_goals (simp only [weightOfStmts]; omega)

/-- Changes a declaration and walks the initial values it left. -/
def walkDeclaration (h : Hooks σ) (d : Declaration) (st : σ) : Declaration × σ :=
  let r := h.declaration d st
  let ds := walkDeclarators h r.1.declarators r.2
  (⟨r.1.span, r.1.kind, ds.1⟩, ds.2)
termination_by 3 * d.weight
decreasing_by all_goals (have le := h.declaration_le d st; rw [Declaration.weight_eq] at le; omega)

/-- Walks the initial values of variables. -/
def walkDeclarators (h : Hooks σ) (ds : List Declarator) (st : σ) : List Declarator × σ :=
  match ds with
  | [] => ([], st)
  | ⟨span, id, init⟩ :: rest =>
    let i := walkOption h init st
    let xs := walkDeclarators h rest i.2
    (⟨span, id, i.1⟩ :: xs.1, xs.2)
termination_by 3 * weightOfDeclarators ds + 2
decreasing_by all_goals (simp only [weightOfDeclarators]; omega)

/-- Walks an expression that may be absent. -/
def walkOption (h : Hooks σ) (e : Option Expr) (st : σ) : Option Expr × σ :=
  match e with
  | none => (none, st)
  | some e =>
    let x := walkExpr h e st
    (some x.1, x.2)
termination_by 3 * weightOfOption e + 2
decreasing_by all_goals (simp only [weightOfOption]; omega)

/-- Walks the first part of the head of a loop. -/
def walkForInit (h : Hooks σ) (i : Option ForInit) (st : σ) : Option ForInit × σ :=
  match i with
  | none => (none, st)
  | some (.declaration decl) =>
    let d := walkDeclaration h decl st
    (some (.declaration d.1), d.2)
  | some (.expression e) =>
    let x := walkExpr h e st
    (some (.expression x.1), x.2)
termination_by 3 * weightOfForInit i + 2
decreasing_by all_goals (simp only [weightOfForInit]; omega)

/-- Walks a branch that may be absent. -/
def walkBranch (h : Hooks σ) (s : Option Stmt) (st : σ) : Option Stmt × σ :=
  match s with
  | none => (none, st)
  | some s =>
    let x := walkStmt h s st
    (some x.1, x.2)
termination_by 3 * weightOfBranch s + 2
decreasing_by all_goals (simp only [weightOfBranch]; omega)

/-- Changes a statement and goes on inside it. -/
def walkStmt (h : Hooks σ) (s : Stmt) (st : σ) : Stmt × σ :=
  let r := h.stmt s st
  descendStmt h r.1 r.2
termination_by 3 * s.weight + 1
decreasing_by
  have := h.stmt_le s st
  omega

/-- Walks the nodes inside a statement. -/
def descendStmt (h : Hooks σ) (s : Stmt) (st : σ) : Stmt × σ :=
  match s with
  | .declaration decl =>
    let d := walkDeclaration h decl st
    (.declaration d.1, d.2)
  | .functionDecl fn =>
    let r := h.functionDecl fn st
    let ps := walkExprs h r.1.params r.2
    let b := walkBlock h r.1.body ps.2
    (.functionDecl ⟨r.1.span, r.1.id, ps.1, b.1⟩, b.2)
  | .block b =>
    let b := walkBlock h b st
    (.block b.1, b.2)
  | .ret span argument =>
    let a := walkOption h argument st
    (.ret span a.1, a.2)
  | .forLoop loop =>
    let r := h.forLoop loop st
    let i := walkForInit h r.1.init r.2
    let t := walkOption h r.1.test i.2
    let u := walkOption h r.1.update t.2
    let b := walkStmt h r.1.body u.2
    (.forLoop ⟨r.1.span, i.1, t.1, u.1, b.1⟩, b.2)
  | .whileLoop loop =>
    let r := h.whileLoop loop st
    let t := walkExpr h r.1.test r.2
    let b := walkStmt h r.1.body t.2
    (.whileLoop ⟨r.1.span, t.1, b.1⟩, b.2)
  | .ifElse branch =>
    let r := h.ifElse branch st
    let t := walkExpr h r.1.test r.2
    let c := walkStmt h r.1.consequent t.2
    let a := walkBranch h r.1.alternate c.2
    (.ifElse ⟨r.1.span, t.1, c.1, a.1⟩, a.2)
  | .throw span argument =>
    let a := walkExpr h argument st
    (.throw span a.1, a.2)
  | .expression span expr =>
    let e := walkExpr h expr st
    (.expression span e.1, e.2)
  | .brk span => (.brk span, st)
  | .cont span => (.cont span, st)
  | .empty span => (.empty span, st)
  | .unknown node => (.unknown node, st)
termination_by 3 * s.weight
decreasing_by
  all_goals simp only [Stmt.weight]
  all_goals first
    | omega
    | (have le := h.functionDecl_le fn st; rw [FunctionDecl.weight_eq] at le; omega)
    | (have le := h.forLoop_le loop st; rw [ForLoop.weight_eq] at le; omega)
    | (have le := h.whileLoop_le loop st; rw [WhileLoop.weight_eq] at le; omega)
    | (have le := h.ifElse_le branch st; rw [IfElse.weight_eq] at le; omega)

end

/-- Changes a program and goes on inside it. -/
def walkProgram (h : Hooks σ) (p : Program) (st : σ) : Program × σ :=
  let r := h.program p st
  let ss := walkStmts h r.1.body r.2
  ({ r.1 with body := ss.1 }, ss.2)

end IndexedLoop
