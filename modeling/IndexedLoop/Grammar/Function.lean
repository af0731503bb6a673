import IndexedLoop.Grammar.List
import IndexedLoop.Surface.Pattern

/-!
# The grammar of functions

Parameters, blocks, and function expressions. A list in parentheses is read as a list of values and then
taken for parameters. A semicolon that is inserted behind a block belongs to the block.
-/

namespace IndexedLoop.Grammar

open Surface Parse

/-- Takes the entries of a list for parameters. -/
def takeParams (list : List (Option Expr)) : Parse Unit := do
  settle (Expr.patternOnlyAll list)
  lose (Expr.patternCountAll list)

/-- Reads parameters in parentheses. -/
def params (g : Level) : Parse (List Binding) := do
  expect "(" .plain
  let list ← entries g ")" .plain
  match params? list with
  | some bindings =>
    takeParams list
    return bindings
  | none => failure

/-- Reads statements up to the closing brace. Its slot depends on whether there were any. -/
def statementsIn (g : Level) (slot : (isEmpty : Bool) → Slot) (isEmpty : Bool) :
    (rounds : List Symbol) → Parse (List Stmt)
  | [] => failure
  | _ :: n => do
    let l ← look
    if l.isPunct "\x7d" then
      accept l (slot isEmpty)
      return []
    else
      let s ← g.stmt false
      return s :: (← statementsIn g slot false n)

/-- Reads a block. `slot` is the slot behind the closing brace, and `behind` the slot behind a semicolon
that is inserted there. -/
def blockWith (g : Level) (slot : (isEmpty : Bool) → Slot) (behind : Slot) : Parse Block := do
  let l ← look
  guard (l.isPunct "\x7b")
  accept l .plain
  let body ← rounds (statementsIn g slot true)
  let _ ← tryInserted behind
  return .mk (← extentFrom l.start.place) body

/-- Reads a block that is part of something else, with the slot behind it. -/
def block (g : Level) (slot : Slot) : Parse Block :=
  blockWith g (fun _ => slot.ended) slot

/-- Reads the parameters and the body of a function, with the slot behind it. -/
def functionTail (g : Level) (slot : Slot) : Parse Function := do
  let bindings ← params g
  let body ← block g slot
  return .mk bindings body

/-- A function expression. Only plain functions keep their contents. -/
def functionExprOf (flavour : Flavour) (name : Option Name) (fn : Function) (extent : Extent) : Expr :=
  if flavour.isGenerator then .other (.itself extent .generatorFunction)
  else if flavour.isAsync then .other (.itself extent .functionExpression)
  else .function extent name fn

/-- Reads a function expression behind its keyword. -/
def functionExpr (g : Level) (k : Context) (start : Place) (isAsync : Bool) : Parse Expr := do
  let isGenerator ← tryPunct "*" .plain
  let name ← tryAnyWord .plain
  let fn ← functionTail g k.operand
  return functionExprOf ⟨isAsync, isGenerator⟩ name fn (← extentFrom start)

end IndexedLoop.Grammar
