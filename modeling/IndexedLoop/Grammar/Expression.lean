import IndexedLoop.Grammar.Primary

/-!
# The grammar of expressions

An expression is a conditional over a chain of binary operators over operands. An operand is a primary
expression with what follows it: members, subscripts, calls, `++` and `--`, and an assignment.
-/

namespace IndexedLoop.Grammar

open Surface Parse

/-! ## Operands -/

/-- Reads the word `yield` where nothing follows that it could give away. -/
def bareYield (k : Context) (l : Lexeme) : Parse Expr := do
  accept l k.keyword
  guard !(← look).token.startsExpr
  return .other (.itself l.extent .yieldExpression)

/-- Reads the first operand of what `new` applies to. The arguments behind the word `async` belong to
`new`. -/
def calleeHead (g : Level) (k : Context) : Parse Expr := do
  let l ← look
  match updateOp? l.token with
  | some op =>
    accept l .plain
    let argument ← g.unary k.right false
    return .update (← extentFrom l.start.place) op true argument
  | none =>
    if l.isWord "yield" then bareYield k l
    else
      match ← primary g k with
      | .call _ (.name name) _ =>
        accept l k.keyword
        return .name name
      | e => return e

/-- Reads what `new` applies to: a primary expression without calls, since the first arguments belong to
`new`, or another `new`. -/
def callee (g : Level) (k : Context) : Parse Expr := do
  let first ← calleeHead g k
  let e ← postfixFrom g k ⟨false, false⟩ first
  guard (e.isPrimary || e matches .new ..)
  return e

/-- Looks at the `=` behind a pattern. Only `=` can stand there, so what could end the statement is no
obstacle to it. -/
def equalsBehind? (g : Level) (k : Context) (e : Expr) : Parse (Option Lexeme) := do
  let l := ((← get).facing .plain).lexeme
  let value? := if 1 < e.patternCount then some e else none
  if e.isTwofold && e.isAssignable false && l.isPunct "=" && !(← readsOtherwise g k l value?) then
    return some l
  else return none

/-- The operand is a pattern that is the variable of a loop: the word behind it tells. -/
def isLoopPattern (e : Expr) : Parse Bool := do
  let l := ((← get).facing .plain).lexeme
  return e.isTwofold && e.isAssignable false && (l.isWord "in" || l.isWord "of")

/-- Reads the assignment whose operator was looked at. -/
def assignmentTail (g : Level) (k : Context) (e : Expr) (op : AssignOp) (l : Lexeme) : Parse Expr := do
  match if op = .assign then e.target? else e.updateTarget? with
  | none => failure
  | some target =>
    accept l .plain
    settle e.patternOnly
    let value ← g.expr k.right
    return .assignment (← extentFrom e.extent.start) op target value

/-- Reads what follows a primary expression, and the assignment to it. -/
def operandFrom (g : Level) (k : Context) (updates : Bool) (e : Expr) : Parse Expr := do
  if k.header && (← isLoopPattern e) then return e
  else
    match ← equalsBehind? g k e with
    | some l => assignmentTail g k e .assign l
    | none =>
      let e ← postfixFrom g k ⟨true, updates⟩ e
      let l ← look
      match assignOp? l.token with
      | some op => assignmentTail g k e op l
      | none => return e

/-! ## Operators in front of an operand -/

/-- Reads what follows the word `yield`. Without an argument it is an operand. -/
def yieldTail (g : Level) (k : Context) (updates : Bool) (start : Place) : Parse Expr := do
  let next ← look
  if next.isPunct "*" then
    accept next .plain
    let _ ← g.expr k.right
    return .other (.itself (← extentFrom start) .yieldExpression)
  else if next.token.startsExpr && !(k.beforeOf && next.isWord "of") then
    let _ ← g.expr k.right
    return .other (.itself (← extentFrom start) .yieldExpression)
  else
    operandFrom g k updates (.other (.itself (← extentFrom start) .yieldExpression))

/-- Reads a private name and the `in` behind it, with an operand of operators that bind tighter. -/
def privateIn (g : Level) (k : Context) (l : Lexeme) : Parse Expr := do
  accept l .plain
  mark "in" .plain
  let first ← g.unary k.right true
  let right ← chainFrom g k (fun op => BinaryOp.isIn.precedence < op.precedence) first
  let left : Expr := .other (.itself l.extent .privateName)
  return .join .isIn left right

/-- Reads an operand with the operators in front of it. An update in front of an operand goes before one
behind it. -/
def unary (g : Level) (k : Context) (updates : Bool) : Parse Expr := do
  let l ← look
  let start := l.start.place
  match unaryOp? l.token, updateOp? l.token with
  | some op, _ =>
    accept l .plain
    let argument ← g.unary k.right true
    return .unary (← extentFrom start) op argument
  | none, some op =>
    accept l .plain
    let argument ← g.unary k.right false
    operandFrom g k updates (.update (← extentFrom start) op true argument)
  | none, none =>
    match l.token with
    | .word "await" =>
      accept l .plain
      let _ ← g.unary k.right true
      return .other (.itself (← extentFrom start) .awaitExpression)
    | .word "yield" =>
      accept l k.keyword
      yieldTail g k updates start
    | .privateName => privateIn g k l
    | _ => operandFrom g k updates (← primary g k)

/-! ## Expressions -/

/-- Reads a conditional whose test was read, or takes the test for the whole. -/
def conditionalFrom (g : Level) (k : Context) (test : Expr) : Parse Expr := do
  if ← tryPunct "?" .plain then
    let consequent ← g.expr .inner
    expect ":" .plain
    let alternate ← g.expr k.right
    return .conditional (← extentFrom test.extent.start) test consequent alternate
  else return test

/-- Reads an expression without a comma at its top. -/
def expr (g : Level) (k : Context) : Parse Expr := do
  let first ← unary g k true
  conditionalFrom g k (← chainFrom g k (fun _ => true) first)

/-- Reads an expression without a comma at its top, whose first primary expression was read. -/
def exprFrom (g : Level) (k : Context) (first : Expr) : Parse Expr := do
  let first ← operandFrom g k true first
  conditionalFrom g k (← chainFrom g k (fun _ => true) first)

/-- Reads an expression that starts with an object literal where a block could stand. It holds nothing
that may stand in patterns only. -/
def braced (g : Level) (k : Context) : Parse Expr := do
  let pending := (← get).pending
  let e ← exprFrom g k (← objectHead g k)
  guard ((← get).pending == pending)
  return e

end IndexedLoop.Grammar
