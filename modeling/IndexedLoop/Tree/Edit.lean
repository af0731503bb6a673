import IndexedLoop.Tree.Event
import IndexedLoop.Tree.Walk

/-!
# Small edits of a tree

`Edits` is a choice of simple changes that a walk applies to every node it meets: renaming names,
emptying statements of some kinds, turning bodies around, leaving parts out. Each is a hook that makes
no node heavier. The walk of `Edits.apply` also writes down the nodes it met, as they were before the
change.
-/

namespace IndexedLoop

/-- A choice of changes. The changes of one kind of node are applied in the order in which they stand
here. -/
structure Edits where
  /-- The statements of a program are turned around. -/
  reverseProgram : Bool := false
  /-- Statements of these kinds become empty. -/
  drop : List String := []
  /-- An `if` becomes its consequent. -/
  keepConsequent : Bool := false
  /-- The statements of a block are turned around. -/
  reverseBlocks : Bool := false
  /-- A declaration keeps only its first variable. -/
  firstVariable : Bool := false
  /-- A declaration becomes one with `let`. -/
  declareWithLet : Bool := false
  /-- Functions lose their parameters. -/
  clearParams : Bool := false
  /-- A `for` loop loses the first part of its head. -/
  dropForInit : Bool := false
  /-- A `while` loop tests this name. -/
  whileTest : Option String := none
  /-- An `if` loses its `else`. -/
  dropElse : Bool := false
  /-- A conditional expression becomes its alternate. -/
  keepAlternate : Bool := false
  /-- A literal becomes the number zero. -/
  zeroLiterals : Bool := false
  /-- The new name of a name. -/
  rename : String → Option String := fun _ => none

namespace Edits

/-- A program after the edit. -/
def program (e : Edits) (p : Program) : Program :=
  if e.reverseProgram then { p with body := p.body.reverse } else p

/-- A statement of a kind to drop, emptied. -/
def dropStmt (e : Edits) (s : Stmt) : Stmt :=
  if s.kind ∈ e.drop then .empty s.span else s

/-- A statement after the edit. -/
def stmt (e : Edits) (s : Stmt) : Stmt :=
  match e.keepConsequent, e.dropStmt s with
  | true, .ifElse branch => branch.consequent
  | _, s => s

/-- A block after the edit. -/
def block (e : Edits) (b : Block) : Block :=
  if e.reverseBlocks then { b with body := b.body.reverse } else b

/-- A declaration after the edit. -/
def declaration (e : Edits) (d : Declaration) : Declaration :=
  { d with
    declarators := if e.firstVariable then d.declarators.take 1 else d.declarators
    kind := if e.declareWithLet then .lexical else d.kind }

/-- A function declaration after the edit. -/
def functionDecl (e : Edits) (f : FunctionDecl) : FunctionDecl :=
  if e.clearParams then { f with params := [] } else f

/-- A `for` loop after the edit. -/
def forLoop (e : Edits) (l : ForLoop) : ForLoop :=
  if e.dropForInit then { l with init := none } else l

/-- A `while` loop after the edit. -/
def whileLoop (e : Edits) (l : WhileLoop) : WhileLoop :=
  match e.whileTest with
  | some name => { l with test := Expr.ident name }
  | none => l

/-- An `if` after the edit. -/
def ifElse (e : Edits) (i : IfElse) : IfElse :=
  if e.dropElse then { i with alternate := none } else i

/-- A function expression after the edit. -/
def function (e : Edits) (f : Function) : Function :=
  if e.clearParams then { f with params := [] } else f

/-- The alternate of a conditional expression, if that is asked for. -/
def chooseAlternate (e : Edits) (x : Expr) : Expr :=
  match e.keepAlternate, x with
  | true, .conditional _ _ _ alternate => alternate
  | _, x => x

/-- Zero in place of a literal, if that is asked for. -/
def zeroLiteral (e : Edits) (x : Expr) : Expr :=
  match e.zeroLiterals, x with
  | true, .literal _ => Expr.zero
  | _, x => x

/-- A name under its new name, if it has one. -/
def renameIdentifier (e : Edits) (x : Expr) : Expr :=
  match x with
  | .identifier id =>
    match e.rename id.name with
    | some name => .identifier { id with name }
    | none => .identifier id
  | x => x

/-- An expression after the edit. -/
def expr (e : Edits) (x : Expr) : Expr :=
  e.renameIdentifier (e.zeroLiteral (e.chooseAlternate x))

/-! ## No edit makes a node heavier -/

theorem weight_stmt (e : Edits) (s : Stmt) : (e.stmt s).weight ≤ s.weight := by
  have hdrop : (e.dropStmt s).weight ≤ s.weight := by
    rw [dropStmt]
    split
    · exact s.weight_pos
    · exact Nat.le_refl _
  rw [stmt]
  split
  · rename_i branch hs
    rw [hs, Stmt.weight, IfElse.weight_eq] at hdrop
    omega
  · exact hdrop

theorem weight_block (e : Edits) (b : Block) : (e.block b).weight ≤ b.weight := by
  rw [block]
  split
  · exact Nat.le_of_eq (by rw [Block.weight_eq, Block.weight_eq, weightOfStmts_reverse])
  · exact Nat.le_refl _

theorem weight_declaration (e : Edits) (d : Declaration) : (e.declaration d).weight ≤ d.weight := by
  rw [Declaration.weight_eq, Declaration.weight_eq, declaration]
  have := weightOfDeclarators_take 1 d.declarators
  dsimp only
  split <;> omega

theorem weight_functionDecl (e : Edits) (f : FunctionDecl) :
    (e.functionDecl f).weight ≤ f.weight := by
  rw [functionDecl]
  split
  · rw [FunctionDecl.weight_eq, FunctionDecl.weight_eq]
    dsimp only [weightOfExprs]
    omega
  · exact Nat.le_refl _

theorem weight_forLoop (e : Edits) (l : ForLoop) : (e.forLoop l).weight ≤ l.weight := by
  rw [forLoop]
  split
  · rw [ForLoop.weight_eq, ForLoop.weight_eq]
    dsimp only [weightOfForInit]
    omega
  · exact Nat.le_refl _

theorem weight_whileLoop (e : Edits) (l : WhileLoop) : (e.whileLoop l).weight ≤ l.weight := by
  rw [whileLoop]
  split
  · have := l.test.weight_pos
    rw [WhileLoop.weight_eq, WhileLoop.weight_eq]
    dsimp only [Expr.ident, Expr.weight]
    omega
  · exact Nat.le_refl _

theorem weight_ifElse (e : Edits) (i : IfElse) : (e.ifElse i).weight ≤ i.weight := by
  rw [ifElse]
  split
  · rw [IfElse.weight_eq, IfElse.weight_eq]
    dsimp only [weightOfBranch]
    omega
  · exact Nat.le_refl _

theorem weight_function (e : Edits) (f : Function) : (e.function f).weight ≤ f.weight := by
  rw [function]
  split
  · rw [Function.weight_eq, Function.weight_eq]
    dsimp only [weightOfExprs]
    omega
  · exact Nat.le_refl _

theorem weight_chooseAlternate (e : Edits) (x : Expr) :
    (e.chooseAlternate x).weight ≤ x.weight := by
  unfold chooseAlternate
  split
  · rw [Expr.weight]
    omega
  · exact Nat.le_refl _

theorem weight_zeroLiteral (e : Edits) (x : Expr) : (e.zeroLiteral x).weight ≤ x.weight := by
  unfold zeroLiteral
  split
  · exact Nat.le_refl _
  · exact Nat.le_refl _

theorem weight_renameIdentifier (e : Edits) (x : Expr) :
    (e.renameIdentifier x).weight = x.weight := by
  unfold renameIdentifier
  split
  · split <;> simp only [Expr.weight]
  · rfl

theorem weight_expr (e : Edits) (x : Expr) : (e.expr x).weight ≤ x.weight := by
  rw [expr, weight_renameIdentifier]
  exact Nat.le_trans (weight_zeroLiteral e _) (weight_chooseAlternate e x)

/-! ## The walk -/

/-- The edits as hooks that write down what they meet. -/
def hooks (e : Edits) : Hooks (List Event) where
  program p trace := (e.program p, trace ++ [.program p])
  stmt s trace := (e.stmt s, trace ++ [.stmt s])
  block b trace := (e.block b, trace ++ [.block b])
  declaration d trace := (e.declaration d, trace ++ [.declaration d])
  functionDecl f trace := (e.functionDecl f, trace ++ [.functionDecl f])
  forLoop l trace := (e.forLoop l, trace ++ [.forLoop l])
  whileLoop l trace := (e.whileLoop l, trace ++ [.whileLoop l])
  ifElse i trace := (e.ifElse i, trace ++ [.ifElse i])
  function f trace := (e.function f, trace ++ [.function f])
  expr x trace := (e.expr x, trace ++ [.expr x])
  stmt_le s _ := e.weight_stmt s
  block_le b _ := e.weight_block b
  declaration_le d _ := e.weight_declaration d
  functionDecl_le f _ := e.weight_functionDecl f
  forLoop_le l _ := e.weight_forLoop l
  whileLoop_le l _ := e.weight_whileLoop l
  ifElse_le i _ := e.weight_ifElse i
  function_le f _ := e.weight_function f
  expr_le x _ := e.weight_expr x

/-- Applies the edits to a program, and gives the nodes that were met on the way. -/
def apply (e : Edits) (p : Program) : Program × List Event :=
  walkProgram e.hooks p []

end Edits

end IndexedLoop
