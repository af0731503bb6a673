import IndexedLoop.Grammar.Level

/-!
# Lists

The entries between brackets, of which each may be empty, expressions with commas between them, and words
with points between them.
-/

namespace IndexedLoop.Grammar

open Surface Parse

/-- Reads an element of a list. -/
def item (g : Level) : Parse Expr := do
  let l ← look
  if l.isPunct "..." then
    accept l .plain
    let inner ← g.expr .inner
    return .spread (← extentFrom l.start.place) inner
  else g.expr .inner

/-- Reads the entries between commas up to the closing bracket. An entry may be empty. -/
def entriesIn (g : Level) (close : String) (slot : Slot) :
    (rounds : List Symbol) → Parse (List (Option Expr))
  | [] => failure
  | _ :: n => do
    let l ← look
    if l.isPunct close then
      accept l slot
      return [none]
    else if l.isPunct "," then
      accept l .plain
      return none :: (← entriesIn g close slot n)
    else
      let e ← item g
      if ← tryPunct "," .plain then
        return some e :: (← entriesIn g close slot n)
      else
        expect close slot
        return [some e]

/-- Reads the entries up to the closing bracket, with the slot behind it. -/
def entries (g : Level) (close : String) (slot : Slot) : Parse (List (Option Expr)) :=
  rounds (entriesIn g close slot)

/-- Reads the arguments of a call behind the opening parenthesis. Empty entries are skipped. -/
def arguments (g : Level) (slot : Slot) : Parse (List Expr) := do
  return (← entries g ")" slot).filterMap id

/-- Reads the expressions behind commas. -/
def moreIn (g : Level) (k : Context) : (rounds : List Symbol) → Parse (List Expr)
  | [] => failure
  | _ :: n => do
    if ← tryPunct "," .plain then
      let e ← g.expr k.right
      return e :: (← moreIn g k n)
    else return []

/-- Reads the expressions behind the first one. -/
def sequenceFrom (g : Level) (k : Context) (first : Expr) : Parse Expr := do
  match ← rounds (moreIn g k) with
  | [] => return first
  | more => return .sequence (← extentFrom first.extent.start) (first :: more)

/-- Reads expressions with commas between them. -/
def expressions (g : Level) (k : Context) : Parse Expr := do
  sequenceFrom g k (← g.expr k)

/-- Reads expressions up to a closing bracket, with the slot behind it. -/
def enclosed (g : Level) (close : String) (slot : Slot) : Parse Expr := do
  let e ← expressions g .inner
  expect close slot
  return e

/-- Reads the words behind points. -/
def pathIn : (rounds : List Symbol) → Parse Unit
  | [] => failure
  | _ :: n => do
    if ← tryPunct "." .plain then
      let _ ← word .plain
      pathIn n

end IndexedLoop.Grammar
