import IndexedLoop.Surface.Basic

/-!
# Operator chains

Operands with binary operators between them, in the order of the source, become a tree by precedence.
`resolve` goes through the chain from left to right with a stack of operands that wait for their right
side.
-/

namespace IndexedLoop

namespace BinaryOp

/-- How tightly an operator binds. -/
def precedence : BinaryOp → Nat
  | .nullish => 0
  | .or => 1
  | .and => 2
  | .bitOr => 3
  | .bitXor => 4
  | .bitAnd => 5
  | .eq | .notEq | .strictEq | .strictNotEq => 6
  | .lt | .le | .gt | .ge | .isIn | .instanceOf => 7
  | .shl | .shr | .ushr => 8
  | .add | .sub => 9
  | .mul | .div | .mod => 10
  | .pow => 11

/-- An operand between two operators belongs to the left one: it binds tighter, or as tight and the
operators group from the left. Only powers group from the right. -/
def takesFrom (left right : BinaryOp) : Bool :=
  right.precedence < left.precedence || (left.precedence == right.precedence && left != .pow)

end BinaryOp

namespace Surface

/-- Two operands joined. -/
def Expr.join (op : BinaryOp) (left right : Expr) : Expr :=
  .binary (left.extent.join right.extent) op left right

namespace Chain

/-- Joins an operand with the waiting ones that take it from the next operator. -/
def unwind (next : BinaryOp) : List (Expr × BinaryOp) → Expr → List (Expr × BinaryOp) × Expr
  | [], e => ([], e)
  | (left, op) :: stack, e =>
    if op.takesFrom next then unwind next stack (.join op left e) else ((left, op) :: stack, e)

/-- Joins the last operand with all that wait. -/
def finish : List (Expr × BinaryOp) → Expr → Expr
  | [], e => e
  | (left, op) :: stack, e => finish stack (.join op left e)

/-- The tree of a chain, with operands waiting on the stack. -/
def resolveFrom (stack : List (Expr × BinaryOp)) (e : Expr) : List (BinaryOp × Expr) → Expr
  | [] => finish stack e
  | (op, next) :: rest =>
    let (stack, left) := unwind op stack e
    resolveFrom ((left, op) :: stack) next rest

/-- The tree of a chain of operators. -/
def resolve (first : Expr) (rest : List (BinaryOp × Expr)) : Expr :=
  resolveFrom [] first rest

end Chain

end Surface

end IndexedLoop
