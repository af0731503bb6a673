import IndexedLoop.Tree.Basic

/-!
# The weight of a tree

A natural number for every tree, larger than that of each tree inside it. The callee of a call counts
four times and the parameters of a function six times, so that the weight does not grow when a call
with a function is unfolded into statements that repeat the callee up to three times and declare each
parameter.
-/

namespace IndexedLoop

mutual

/-- The weight of an expression. -/
def Expr.weight : Expr → Nat
  | .assignment _ _ left right => 1 + left.weight + right.weight
  | .binary _ _ left right => 1 + left.weight + right.weight
  | .unary _ _ argument => 1 + argument.weight
  | .sequence _ expressions => 1 + weightOfExprs expressions
  | .update _ _ _ argument => 1 + argument.weight
  | .function fn => 1 + fn.weight
  | .call _ callee arguments => 20 + 4 * callee.weight + weightOfExprs arguments
  | .new _ callee arguments => 1 + callee.weight + weightOfExprs arguments
  | .conditional _ test consequent alternate =>
    1 + test.weight + consequent.weight + alternate.weight
  | .member _ object property _ => 1 + object.weight + property.weight
  | .object _ properties => 1 + weightOfProperties properties
  | .array _ elements => 1 + weightOfElements elements
  | .this _ | .identifier _ | .literal _ | .unknown _ => 1

/-- The weight of a function expression. -/
def Function.weight : Function → Nat
  | ⟨_, _, params, body⟩ => 1 + 6 * weightOfExprs params + body.weight

/-- The weight of a list of expressions. -/
def weightOfExprs : List Expr → Nat
  | [] => 0
  | e :: rest => 1 + e.weight + weightOfExprs rest

/-- The weight of the elements of an array. -/
def weightOfElements : List (Option Expr) → Nat
  | [] => 0
  | none :: rest => 1 + weightOfElements rest
  | some e :: rest => 1 + e.weight + weightOfElements rest

/-- The weight of the properties of an object. -/
def weightOfProperties : List Property → Nat
  | [] => 0
  | ⟨_, key, value⟩ :: rest => 1 + key.weight + value.weight + weightOfProperties rest

/-- The weight of a block. -/
def Block.weight : Block → Nat
  | ⟨_, body⟩ => 1 + weightOfStmts body

/-- The weight of a list of statements. -/
def weightOfStmts : List Stmt → Nat
  | [] => 0
  | s :: rest => 1 + s.weight + weightOfStmts rest

/-- The weight of a declaration. -/
def Declaration.weight : Declaration → Nat
  | ⟨_, _, declarators⟩ => 1 + weightOfDeclarators declarators

/-- The weight of the variables of a declaration. -/
def weightOfDeclarators : List Declarator → Nat
  | [] => 0
  | ⟨_, _, init⟩ :: rest => 1 + weightOfOption init + weightOfDeclarators rest

/-- The weight of an expression that may be absent. -/
def weightOfOption : Option Expr → Nat
  | none => 0
  | some e => e.weight

/-- The weight of the first part of the head of a loop. -/
def weightOfForInit : Option ForInit → Nat
  | none => 0
  | some (.declaration decl) => decl.weight
  | some (.expression e) => e.weight

/-- The weight of a function declaration. -/
def FunctionDecl.weight : FunctionDecl → Nat
  | ⟨_, _, params, body⟩ => 1 + weightOfExprs params + body.weight

/-- The weight of a `for` loop. -/
def ForLoop.weight : ForLoop → Nat
  | ⟨_, init, test, update, body⟩ =>
    1 + weightOfForInit init + weightOfOption test + weightOfOption update + body.weight

/-- The weight of a `while` loop. -/
def WhileLoop.weight : WhileLoop → Nat
  | ⟨_, test, body⟩ => 1 + test.weight + body.weight

/-- The weight of an `if`. -/
def IfElse.weight : IfElse → Nat
  | ⟨_, test, consequent, alternate⟩ =>
    1 + test.weight + consequent.weight + weightOfBranch alternate

/-- The weight of a branch that may be absent. -/
def weightOfBranch : Option Stmt → Nat
  | none => 0
  | some s => s.weight

/-- The weight of a statement. -/
def Stmt.weight : Stmt → Nat
  | .declaration decl => 1 + decl.weight
  | .functionDecl fn => 1 + fn.weight
  | .block b => 1 + b.weight
  | .ret _ argument => 1 + weightOfOption argument
  | .forLoop loop => 1 + loop.weight
  | .whileLoop loop => 1 + loop.weight
  | .ifElse branch => 1 + branch.weight
  | .throw _ argument => 1 + argument.weight
  | .expression _ expr => 1 + expr.weight
  | .brk _ | .cont _ | .empty _ | .unknown _ => 1

end

theorem Function.weight_eq (f : Function) :
    f.weight = 1 + 6 * weightOfExprs f.params + f.body.weight := by
  cases f; rfl

theorem Block.weight_eq (b : Block) : b.weight = 1 + weightOfStmts b.body := by
  cases b; rfl

theorem Declaration.weight_eq (d : Declaration) :
    d.weight = 1 + weightOfDeclarators d.declarators := by
  cases d; rfl

theorem FunctionDecl.weight_eq (f : FunctionDecl) :
    f.weight = 1 + weightOfExprs f.params + f.body.weight := by
  cases f; rfl

theorem ForLoop.weight_eq (l : ForLoop) :
    l.weight = 1 + weightOfForInit l.init + weightOfOption l.test + weightOfOption l.update
      + l.body.weight := by
  cases l; rfl

theorem WhileLoop.weight_eq (l : WhileLoop) : l.weight = 1 + l.test.weight + l.body.weight := by
  cases l; rfl

theorem IfElse.weight_eq (i : IfElse) :
    i.weight = 1 + i.test.weight + i.consequent.weight + weightOfBranch i.alternate := by
  cases i; rfl

theorem Expr.weight_pos (e : Expr) : 0 < e.weight := by
  cases e <;> simp only [Expr.weight] <;> omega

theorem Stmt.weight_pos (s : Stmt) : 0 < s.weight := by
  cases s <;> simp only [Stmt.weight] <;> omega

theorem weightOfStmts_append (xs ys : List Stmt) :
    weightOfStmts (xs ++ ys) = weightOfStmts xs + weightOfStmts ys := by
  induction xs with
  | nil => simp [weightOfStmts]
  | cons s rest ih => simp only [List.cons_append, weightOfStmts, ih]; omega

theorem weightOfStmts_reverse (xs : List Stmt) :
    weightOfStmts xs.reverse = weightOfStmts xs := by
  induction xs with
  | nil => rfl
  | cons s rest ih =>
    simp only [List.reverse_cons, weightOfStmts_append, weightOfStmts, ih]; omega

theorem weightOfDeclarators_take (n : Nat) (ds : List Declarator) :
    weightOfDeclarators (ds.take n) ≤ weightOfDeclarators ds := by
  induction ds generalizing n with
  | nil => simp
  | cons d rest ih =>
    cases n with
    | zero => simp [weightOfDeclarators]
    | succ n =>
      have := ih n
      obtain ⟨_, _, init⟩ := d
      simp only [List.take_succ_cons, weightOfDeclarators]
      omega

end IndexedLoop
