import IndexedLoop.Grammar.Expression

/-!
# The grammar of declarations

Declarations of variables, functions and classes. A function or a class with a name declares it at the
start of a statement, unless the text behind it can only go on with an expression.
-/

namespace IndexedLoop.Grammar

open Surface Parse

/-! ## Variables -/

/-- Reads what a declarator binds: a word, or a pattern. -/
def binding (g : Level) (slot : Slot) : Parse Binding := do
  let l ← look
  let start := l.start.place
  let pattern (p : Parse Expr) : Parse Binding := do
    accept l .plain
    let e ← p
    settle e.patternOnly
    match e.declared? with
    | some b => return b
    | none => failure
  match l.token with
  | .word text =>
    accept l slot
    return .name ⟨l.extent, text⟩
  | .punct "[" => pattern (arrayTail g start slot)
  | .punct "\x7b" => pattern (objectTail g .object start slot)
  | _ => failure

/-- Reads the initial value of a variable, if there is one. -/
def initializer (g : Level) : Parse (Option Expr) := do
  if ← tryPunct "=" .plain then
    return some (← g.expr .statement)
  else return none

/-- Reads one variable of a declaration. -/
def declarator (g : Level) : Parse Declarator := do
  let target ← binding g .ending
  let init ← initializer g
  return .mk (← extentFrom target.extent.start) target init

/-- Reads the variables of a declaration. -/
def declaratorsIn (g : Level) : (rounds : List Symbol) → Parse (List Declarator)
  | [] => failure
  | _ :: n => do
    let d ← declarator g
    if ← tryPunct "," .plain then
      return d :: (← declaratorsIn g n)
    else return [d]

/-- Reads a declaration behind its keyword. -/
def declarationTail (g : Level) (start : Place) (kind : DeclKind) : Parse Declaration := do
  let ds ← rounds (declaratorsIn g)
  semicolon
  return .mk (← extentFrom start) kind ds

/-- The kind of declaration that starts with the token that was looked at. The word `let` declares only
before a name or a pattern, and `slot` is the slot behind it. -/
def declarationKind? (l : Lexeme) (slot : Slot) : Option DeclKind :=
  match l.token with
  | .word "var" => some .var
  | .word "const" => some .constant
  | .word "let" =>
    match (l.next slot).token with
    | .word w => if Token.isWordOperator (.word w) then none else some .lexical
    | .punct p => if p == "[" || p == "\x7b" then some .lexical else none
    | _ => none
  | _ => none

/-! ## Functions and classes -/

/-- A function or a class with a name, which is a declaration or an operand. -/
structure Definition where
  start : Place
  stmt : Extent → Stmt
  operand : Extent → Expr

/-- The token that was looked at is the keyword of a function with a name. -/
def namesFunction (l : Lexeme) : Bool :=
  l.isWord "function" &&
    let next := l.next .plain
    let next := if next.isPunct "*" then next.next .plain else next
    next.token matches .word _

/-- The token that was looked at is the word `async` in front of a function with a name. The slot behind
the word is given. -/
def namesAsyncFunction (l : Lexeme) (slot : Slot) : Bool :=
  l.isWord "async" && namesFunction (l.next slot)

/-- The token that was looked at is the keyword of a class with a name. -/
def namesClass (l : Lexeme) : Bool :=
  l.isWord "class" &&
    match (l.next .plain).token with
    | .word w => w != "extends"
    | _ => false

/-- The token that was looked at starts a function or a class with a name. The slot behind the word
`async` is given. -/
def startsDefinition (l : Lexeme) (slot : Slot) : Bool :=
  namesFunction l || namesAsyncFunction l slot || namesClass l

/-- Reads a function with a name behind its keyword, with the slot behind it. -/
def functionDefinition (g : Level) (start : Place) (isAsync : Bool) (slot : Slot) :
    Parse Definition := do
  let isGenerator ← tryPunct "*" .plain
  let name ← word .plain
  let fn ← functionTail g slot
  let flavour : Flavour := ⟨isAsync, isGenerator⟩
  return ⟨start, fun e => .function e flavour name fn, functionExprOf flavour (some name) fn⟩

/-- Reads a class with a name behind its keyword, with the slot behind it. -/
def classDefinition (g : Level) (start : Place) (slot : Slot) : Parse Definition := do
  let _ ← word .plain
  classTail g slot
  return ⟨start, fun e => .other ⟨e, .classDeclaration⟩, fun e => .other (.itself e .classExpression)⟩

/-- Reads the function or the class with a name that starts with the token that was looked at. The whole
may start before it. The slots behind the word `async` and behind the whole are given. -/
def definition (g : Level) (start : Place) (l : Lexeme) (asyncSlot slot : Slot) :
    Parse Definition := do
  if namesFunction l then
    accept l .plain
    functionDefinition g start false slot
  else if namesAsyncFunction l asyncSlot then
    accept (l.next asyncSlot) .plain
    functionDefinition g start true slot
  else
    guard (namesClass l)
    accept l .plain
    classDefinition g start slot

/-- The definition as a statement, with the inserted semicolon behind it, if there is one. -/
def Definition.declare (d : Definition) : Parse Stmt := do
  let _ ← tryInserted .plain
  return d.stmt (← extentFrom d.start)

/-- The definition as an operand. -/
def Definition.toOperand (d : Definition) : Parse Expr := do
  return d.operand (← extentFrom d.start)

/-- The text behind a definition goes on with an expression. -/
def goesOn (alone : Bool) : Parse Bool := do
  return (← look).token.continuesOperand alone

end IndexedLoop.Grammar
