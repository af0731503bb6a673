import IndexedLoop.Grammar.Declaration

/-!
# The grammar of loops

A `for` header has three clauses, or a variable and what it runs over. Headers of both kinds start alike,
and what follows the first operand or the first variable tells.
-/

namespace IndexedLoop.Grammar

open Surface Parse

/-- Reads expressions in parentheses. -/
def condition (g : Level) : Parse Expr := do
  expect "(" .plain
  enclosed g ")" .plain

/-! ## Headers -/

/-- What a `for` header holds. -/
inductive Header where
  /-- A variable and what it runs over. -/
  | each
  /-- Three clauses. -/
  | clauses (init : Option ForInit) (test update : Option Expr)

/-- Reads the rest of a header from the word between the variable and what it runs over. -/
def eachTail (g : Level) : Parse Header := do
  let l ← look
  guard (l.isWord "in" || l.isWord "of")
  accept l .plain
  let _ ← enclosed g ")" .plain
  return .each

/-- Reads a clause of a loop header up to this punctuation. -/
def clause (g : Level) (close : String) : Parse (Option Expr) := do
  let l ← look
  if l.isPunct close then
    accept l .plain
    return none
  else return some (← enclosed g close .plain)

/-- Reads the second and the third clause of a header. -/
def clausesTail (g : Level) (init : Option ForInit) : Parse Header := do
  let test ← clause g ";"
  let update ← clause g ")"
  return .clauses init test update

/-! ## Headers that start with a declaration -/

/-- Reads the rest of a declaration behind its first variable, and the clauses behind it. -/
def declarationHeader (g : Level) (start : Place) (kind : DeclKind) (first : Declarator) :
    Parse Header := do
  let more ← if ← tryPunct "," .plain then rounds (declaratorsIn g) else pure []
  semicolon
  let declaration : Declaration := .mk (← extentFrom start) kind (first :: more)
  clausesTail g (some (.declaration declaration))

/-- Reads an initial value that a loop over keys may have, operators that bind as `in` or tighter, and the
rest of the header from the first `in`. -/
def initializedOver (g : Level) (k : Context) : Parse Header := do
  let first ← g.unary k true
  let admits (op : BinaryOp) : Bool := BinaryOp.isIn.precedence ≤ op.precedence && op != .isIn
  let _ ← chainFrom g k admits first
  guard ((← look).isWord "in")
  eachTail g

/-- Reads a header that declares with `var`, behind the word. The variable may have an initial value. With
`isAwait` the header cannot have three clauses. -/
def varHeader (g : Level) (isAwait : Bool) (start : Place) : Parse Header := do
  let k : Context := ⟨!isAwait, false, true⟩
  let target ← binding g ⟨!isAwait, false, true⟩
  let next ← look
  if next.isPunct "=" then
    accept next .plain
    (do
      let init ← g.expr k
      if (← look).isWord "of" then eachTail g
      else
        guard !isAwait
        let first : Declarator := .mk (← extentFrom target.extent.start) target (some init)
        declarationHeader g start .var first) <|> initializedOver g k
  else if next.isWord "in" || next.isWord "of" then eachTail g
  else
    guard !isAwait
    declarationHeader g start .var (.mk target.extent target none)

/-- Reads a header that declares with another word, behind it. A semicolon may be inserted behind the
variable of a loop. -/
def lexicalHeader (g : Level) (isAwait : Bool) (start : Place) (kind : DeclKind) : Parse Header := do
  let target ← binding g .ending
  let each : Parse Header := do
    let _ ← tryInserted .plain
    eachTail g
  each <|> do
    guard !isAwait
    let init ← initializer g
    declarationHeader g start kind (.mk (← extentFrom target.extent.start) target init)

/-! ## Headers that start with an expression -/

/-- Reads a header that starts with an operand: the variable of a loop, or the first clause. -/
def operandHeader (g : Level) (isAwait : Bool) : Parse Header := do
  let k := Context.loopHeader
  let first ← g.unary k true
  let each : Parse Header := do
    guard first.target?.isSome
    if first.isTwofold then
      face .plain
    settle first.patternOnly
    eachTail g
  each <|> do
    guard !isAwait
    let e ← conditionalFrom g k (← chainFrom g k (fun _ => true) first)
    let e ← sequenceFrom g k e
    expect ";" .plain
    clausesTail g (some (.expression e))

/-- The kind of declaration that starts a header with the token that was looked at. Before the word `of`
the word `let` is a variable. -/
def headerKind? (l : Lexeme) : Option DeclKind :=
  let slot := Context.loopHeader.keyword
  if l.isWord "let" && (l.next slot).isWord "of" then none else declarationKind? l slot

/-- Reads a header behind its opening parenthesis. -/
def header (g : Level) (isAwait : Bool) : Parse Header := do
  let l ← look
  let start := l.start.place
  match headerKind? l with
  | some .var =>
    accept l .plain
    varHeader g isAwait start
  | some kind =>
    let declares : Parse Header := do
      accept l .plain
      lexicalHeader g isAwait start kind
    if isAwait && l.isWord "let" then declares <|> operandHeader g isAwait else declares
  | none =>
    if l.isPunct ";" && !isAwait then
      accept l .plain
      clausesTail g none
    else operandHeader g isAwait

/-! ## Loops -/

/-- Reads a `for` loop behind its keyword. -/
def forStatement (g : Level) (alone : Bool) (start : Place) : Parse Stmt := do
  let isAwait ← tryWord "await" .plain
  expect "(" .plain
  let h ← header g isAwait
  let body ← g.stmt alone
  let extent ← extentFrom start
  match h with
  | .each => return .other ⟨extent, .forInStatement⟩
  | .clauses init test update => return .forLoop extent init test update body

/-- Reads a `while` loop behind its keyword. -/
def whileStatement (g : Level) (alone : Bool) (start : Place) : Parse Stmt := do
  let test ← condition g
  let body ← g.stmt alone
  return .whileLoop (← extentFrom start) test body

/-- Reads a loop that tests behind its body, behind its keyword. It needs no semicolon. -/
def doStatement (g : Level) (start : Place) : Parse Stmt := do
  let _ ← g.stmt true
  expectWord "while" .plain
  let _ ← condition g
  face .ending
  let l ← look
  if l.isPunct ";" || l.token == .inserted then
    accept l .plain
  return .other ⟨← extentFrom start, .doStatement⟩

end IndexedLoop.Grammar
