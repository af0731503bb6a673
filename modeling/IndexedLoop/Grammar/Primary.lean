import IndexedLoop.Grammar.Markup
import IndexedLoop.Grammar.Member
import IndexedLoop.Grammar.Operand

/-!
# The grammar of primary expressions

A list in parentheses is read once and then taken for parameters or for a value by the `=>` behind it.
A brace behind `=>` opens a block or an object literal. If both can be read, the reading with more weight
counts, and the block if they weigh the same.
-/

namespace IndexedLoop.Grammar

open Surface Parse

/-! ## Arrow functions -/

/-- How to read a brace that could open a block and an object literal. -/
inductive BraceForm where
  | block
  | object
  /-- A word with a colon follows: a label or a key. -/
  | pair
  /-- Only the whole tells. -/
  | unclear
deriving DecidableEq, Repr

/-- How to read the brace that was looked at. -/
def braceForm (l : Lexeme) : BraceForm :=
  let first := l.next .plain
  if (Lexical.staticGet? first.start.rest).isSome then .object
  else
    match first.token with
    | .word w =>
      let slot := if softKeywords.contains w then .wide else Context.statement.operand
      if first.token.isStatementKeyword then .block
      else if (first.next slot).isPunct ":" then .pair
      else .unclear
    | .number _ | .string _ | .privateName => .unclear
    | .punct p =>
      if [",", "...", "*"].contains p then .object
      else if ["[", "@", "\x7b", "\x7d"].contains p then .unclear
      else .block
    | _ => .block

/-- Reads a block as the body of an arrow function. What stands behind it may tell that it is an object
literal or a pattern. -/
def arrowBlock (g : Level) (k : Context) : Parse Unit := do
  let .mk _ body ← block g k.operand
  if (← get).slot.ends then
    let next ← look
    guard !(next.isPunct "=" || (body.isEmpty && next.isPunct "`"))

/-- Reads the body of an arrow function behind the arrow. -/
def arrowBody (g : Level) (k : Context) : Parse Unit := do
  let l ← look
  let value : Parse Unit := do
    let _ ← g.braced k.right
  if l.isPunct "\x7b" then
    match braceForm l with
    | .block => arrowBlock g k
    | .object => value
    | .pair =>
      contest value (arrowBlock g k) (fun c _ d => c.losses < d.losses)
        (compareWeights (arrowBlock g k) (objectHead g k.right) fun b o => o ≤ b)
    | .unclear => arrowBlock g k <|> value
  else
    let _ ← g.expr k.right

/-- Reads an arrow function behind the arrow. -/
def arrowTail (g : Level) (k : Context) (start : Place) : Parse Expr := do
  arrowBody g k
  return .other (.itself (← extentFrom start) .arrowFunction)

/-! ## Primary expressions -/

/-- Reads the flags of a regular expression, which comments may precede. -/
def regexFlagsIn : (rounds : List Symbol) → Parse Unit
  | [] => failure
  | _ :: n => do
    let c ← get
    match Lexical.regexFlags c.rest with
    | size + 1 => set (c.advance (size + 1))
    | 0 =>
      guard (c.lexeme.token != .inserted)
      match Lexical.blanksAndComment? c.rest with
      | some size =>
        set (c.advance size)
        regexFlagsIn n
      | none => failure

/-- Reads the regular expression whose slash was looked at. -/
def regex (l : Lexeme) (slot : Slot) : Parse Expr := do
  match Lexical.regex? l.start.rest with
  | some n =>
    set ((l.start.advance n).facing slot)
    rounds regexFlagsIn <|> pure ()
    let stop ← get
    let text := l.start.rest.take (l.start.rest.length - stop.rest.length)
    return .literal ⟨⟨l.start.place, stop.place⟩, .regExp, text⟩
  | none => failure

/-- The entries of a list in parentheses as an expression. -/
def parens? (extent : Extent) (list : List (Option Expr)) : Option Expr :=
  match list.mapM id with
  | some (first :: more) =>
    if (first :: more).any fun e => e matches .spread .. then none
    else if more.isEmpty then some (.parens extent first)
    else
      let stop := (more.getLast?.getD first).extent.stop
      some (.parens extent (.sequence ⟨first.extent.start, stop⟩ (first :: more)))
  | _ => none

/-- Reads a list in parentheses behind the opening one: the parameters of an arrow function, or
expressions. -/
def parens (g : Level) (k : Context) (start : Place) : Parse Expr := do
  let list ← entries g ")" .plain
  let value? := parens? (← extentFrom start) list
  let next ← look
  face k.target
  if next.isPunct "=>" && (params? list).isSome && !(← readsOtherwise g k next value?) then
    accept next .plain
    takeParams list
    arrowTail g k start
  else
    match value? with
    | some e => return e
    | none => failure

/-- Reads a list in parentheses behind the word `async`, from the opening one: the parameters of an arrow
function, or arguments. -/
def asyncList (g : Level) (k : Context) (name : Name) : Parse Expr := do
  let start := name.extent.start
  expect "(" .plain
  let list ← entries g ")" .plain
  let call : Expr := .call (← extentFrom start) (.name name) (list.filterMap id)
  let value? := if Expr.patternCountAll list = 0 then none else some call
  let next ← look
  face k.operand
  if next.isPunct "=>" && (params? list).isSome && !(← readsOtherwise g k next value?) then
    accept next .plain
    takeParams list
    arrowTail g k start
  else return call

/-- Reads what follows the word `async`: a function, an arrow function, or the word was a name. -/
def asyncTail (g : Level) (k : Context) (name : Name) : Parse Expr := do
  let start := name.extent.start
  let next ← look
  match next.token with
  | .punct "=>" =>
    accept next .plain
    arrowTail g k start
  | .punct "(" => asyncList g k name
  | .word w =>
    if next.token.isWordOperator || (w == "of" && (k.header || k.beforeOf)) then return .name name
    else
      accept next .plain
      if w = "function" then functionExpr g k start true
      else
        expect "=>" .plain
        arrowTail g k start
  | _ => return .name name

/-- Reads what follows the word `import` in an expression. -/
def importTail (k : Context) (extent : Extent) : Parse Expr := do
  let next ← look
  if next.isPunct "." then
    accept next .plain
    expectWord "meta" k.operand
    return .other (.itself (← extentFrom extent.start) .metaProperty)
  else
    guard (next.isPunct "(" || next.isPunct "?.")
    return .other (.itself extent .importKeyword)

/-- Reads what follows the word `new`: what it applies to and the arguments, if there are any. -/
def newTail (g : Level) (k : Context) (start : Place) : Parse Expr := do
  if ← tryPunct "." .plain then
    expectWord "target" k.operand
    return .other (.itself (← extentFrom start) .metaProperty)
  else
    let callee ← g.callee k.right
    let args ←
      if ← tryPunct "(" .plain then do
        gain
        arguments g k.operand
      else pure []
    return .new (← extentFrom start) callee args

/-- Reads an expression that starts with a word. -/
def wordExpr (g : Level) (k : Context) (l : Lexeme) (text : String) : Parse Expr := do
  let extent := l.extent
  let name : Name := ⟨extent, text⟩
  let literal (c : LiteralClass) : Expr := .literal ⟨extent, c, Symbol.ofString text⟩
  match text with
  | "function" =>
    accept l .plain
    functionExpr g k extent.start false
  | "class" =>
    accept l .plain
    classExpr g k extent.start
  | "new" =>
    accept l .plain
    newTail g k extent.start
  | "async" =>
    accept l k.keyword
    asyncTail g k name
  | "import" =>
    accept l .plain
    importTail k extent
  | "typeof" | "void" | "delete" | "await" | "yield" => failure
  | "this" =>
    accept l k.operand
    return .this extent
  | "super" =>
    accept l k.operand
    return .other (.itself extent .superKeyword)
  | "true" =>
    accept l k.operand
    return literal (.boolean true)
  | "false" =>
    accept l k.operand
    return literal (.boolean false)
  | "null" =>
    accept l k.operand
    return literal .null
  | "undefined" =>
    accept l k.target
    return .name name
  | _ =>
    accept l k.target
    if ← tryPunct "=>" .plain then
      arrowTail g k extent.start
    else return .name name

/-- Reads a class with decorators. -/
def decoratedClass (g : Level) (k : Context) (start : Place) : Parse Expr := do
  let _ ← decorators g
  expectWord "class" .plain
  classExpr g k start

/-- Reads an expression that no operator is part of. -/
def primary (g : Level) (k : Context) : Parse Expr := do
  let l ← look
  let start := l.start.place
  match l.token with
  | .word text => wordExpr g k l text
  | .number text =>
    accept l k.operand
    return .literal ⟨l.extent, .number, text⟩
  | .string text =>
    accept l k.operand
    return .literal ⟨l.extent, .string, text⟩
  | .punct "(" =>
    accept l .plain
    parens g k start
  | .punct "[" =>
    accept l .plain
    arrayTail g start k.target
  | .punct "\x7b" =>
    accept l .plain
    objectTail g .object start k.target
  | .punct "`" =>
    accept l .plain
    template g k.operand
    return .other (.itself (← extentFrom start) .templateString)
  | .punct "@" => decoratedClass g k start
  | .punct p =>
    if p == "/" || p == "/=" then regex l k.operand
    else if p.startsWith "<" then
      let construct ← element g k.operand
      return .other (.itself (← extentFrom start) construct)
    else failure
  | _ => failure

end IndexedLoop.Grammar
