import IndexedLoop.Grammar.Function

/-!
# The grammar of objects and classes

The members of object literals and classes: keys, modifiers, methods, fields and decorators. A word such
as `get` modifies a member only if a key follows it, and is the key otherwise.
-/

namespace IndexedLoop.Grammar

open Surface Parse

/-! ## Keys and modifiers -/

/-- Where a member stands. -/
inductive Site where
  /-- In an object literal. -/
  | object
  /-- Behind a brace that could also open a block. -/
  | leading
  /-- In a class. -/
  | inClass
deriving DecidableEq, Repr

namespace Site

/-- The slot behind a key, which may also be an operand or a field without a value. -/
def slot : Site → Slot
  | .object => .plain
  | .leading => Context.statement.operand
  | .inClass => .ending

/-- The slot behind a word that can be a modifier. -/
def modifierSlot : Site → Slot
  | .object => .plain
  | .leading => .wide
  | .inClass => .ending

/-- The slot behind a private name, which is no operand. -/
def privateSlot : Site → Slot
  | .inClass => .ending
  | _ => .plain

/-- Where the default of a name or a pattern stands. -/
def default : Site → Context
  | .leading => .statement
  | _ => .inner

end Site

/-- The words that can be modifiers, or start a statement and still be names. -/
def softKeywords : List String :=
  ["get", "set", "async", "static", "let", "export"]

/-- Reads the key of a property. -/
def key (g : Level) (site : Site) : Parse Key := do
  let l ← look
  match l.token with
  | .word text =>
    accept l (if softKeywords.contains text then site.modifierSlot else site.slot)
    return .name ⟨l.extent, text⟩
  | .number text =>
    accept l site.slot
    return .literal ⟨l.extent, .number, text⟩
  | .string text =>
    accept l site.slot
    return .literal ⟨l.extent, .string, text⟩
  | .privateName =>
    accept l site.privateSlot
    return .other ⟨l.extent, .privateName⟩
  | .punct "[" =>
    accept l .plain
    let _ ← g.expr .inner
    expect "]" site.slot
    return .other ⟨← extentFrom l.start.place, .computedPropertyName⟩
  | _ => failure

/-- Reads this word if it modifies the member: a key follows it, or for some words a star. -/
def tryModifier (w : String) (star : Bool) (site : Site) : Parse Bool := do
  let l ← look
  let next := l.next site.modifierSlot
  let isKey := next.token.startsKey && !(site = .leading && next.token.isWordOperator)
  if l.isWord w && (isKey || (star && next.isPunct "*")) then
    accept l site.modifierSlot
    return true
  else return false

/-- Reads `static get` in front of a line break, which makes a method of what follows. -/
def tryStaticGet : Parse Bool := do
  let l ← look
  match Lexical.staticGet? l.start.rest with
  | some n =>
    set ((l.start.advance n).facing .plain)
    return true
  | none => return false

/-- Reads the modifiers of a member in their order. Gives whether it is a method by them, and where the
key stands. -/
def modifiers (site : Site) : Parse (Bool × Site) := do
  let (isMethod, site) ←
    if ← tryStaticGet then pure (true, Site.object)
    else if ← tryModifier "static" true site then
      pure (if site = .inClass then (false, .inClass) else (true, .object))
    else pure (false, site)
  let (isMethod, site) ←
    if ← tryModifier "async" true site then pure (true, Site.object) else pure (isMethod, site)
  if ← tryPunct "*" .plain then return (true, .object)
  else if ← tryModifier "get" false site then return (true, .object)
  else if ← tryModifier "set" false site then return (true, .object)
  else return (isMethod, site)

/-! ## Decorators -/

/-- Reads a decorator behind its sign: a path of names, which may be called. -/
def decoratorTail (g : Level) : Parse Unit := do
  let _ ← word .plain
  rounds pathIn
  if ← tryPunct "(" .plain then
    let _ ← arguments g .plain

/-- Reads decorators, and says whether there are any. -/
def decoratorsIn (g : Level) : (rounds : List Symbol) → Parse Bool
  | [] => failure
  | _ :: n => do
    if ← tryPunct "@" .plain then
      decoratorTail g
      let _ ← decoratorsIn g n
      return true
    else return false

/-- Reads decorators, and says whether there are any. -/
def decorators (g : Level) : Parse Bool :=
  rounds (decoratorsIn g)

/-! ## Object literals -/

/-- Reads the parameters and the body of a method. -/
def methodTail (g : Level) : Parse Unit := do
  let _ ← functionTail g .plain

/-- Reads a default behind a name or a pattern. Behind the first entry of a brace that could also open a
block, a semicolon would be inserted before the closing brace. -/
def defaultTail (g : Level) (site : Site) (start : Place) : Parse Member := do
  expect "=" .plain
  let _ ← g.expr site.default
  guard ((← look).token != .inserted)
  notePending start
  return .defaulted (← extentFrom start)

/-- Reads an object pattern with a default, which only a pattern may hold. -/
def nestedDefault (g : Level) (site : Site) (start : Place) : Parse Member := do
  if site = .leading then
    match ← g.braced .statement with
    | .assignment _ .assign (.other u) _ =>
      guard (u.node.construct = .objectPattern)
      guard ((← look).token != .inserted)
      notePending start
      return .defaulted (← extentFrom start)
    | _ => failure
  else
    let e ← g.callee .inner
    guard (e matches .object ..)
    guard (e.isAssignable false)
    settle e.patternOnly
    face .plain
    defaultTail g site start

/-- Reads what follows the key of a member. A value that is spread may stand in a pattern only. -/
def memberTail (g : Level) (site : Site) (start : Place) (mustCall : Bool) (k : Key) :
    Parse Member := do
  let next ← look
  if next.isPunct "(" then
    methodTail g
    return .method (← extentFrom start)
  else
    guard !mustCall
    if next.isPunct ":" then
      accept next .plain
      let value ← item g
      if value matches .spread .. then
        notePending start
      return .pair (← extentFrom start) k value
    else
      match k with
      | .name name =>
        if next.isPunct "=" then defaultTail g site start
        else
          guard (site != .leading || next.isPunct "\x7d")
          return .shorthand name
      | _ => failure

/-- Reads a member of an object literal that starts with a bracket: its key is computed, or it is an array
pattern with a default. -/
def bracketMember (g : Level) (site : Site) (start : Place) : Parse Member := do
  expect "[" .plain
  let list ← entries g "]" .plain
  let extent ← extentFrom start
  let e : Expr := .array extent (withoutTrailing list)
  if e.isAssignable false && (← look).isPunct "=" then
    settle e.patternOnly
    defaultTail g site start
  else
    match list with
    | [some e] =>
      guard !(e matches .spread ..)
      face site.slot
      memberTail g site start false (.other ⟨extent, .computedPropertyName⟩)
    | _ => failure

/-- Reads a member of an object literal that starts with a key or a modifier. -/
def keyedMember (g : Level) (site : Site) (start : Place) : Parse Member := do
  let decorated ← decorators g
  let (isMethod, site) ← modifiers (if decorated then .object else site)
  memberTail g site start (decorated || isMethod) (← key g site)

/-- Reads a member of an object literal. -/
def member (g : Level) (site : Site) : Parse Member := do
  let l ← look
  let start := l.start.place
  if l.isPunct "..." then
    accept l .plain
    let inner ← g.expr .inner
    return .spread (← extentFrom start) inner
  else if l.isPunct "\x7b" then nestedDefault g site start
  else if l.isPunct "[" then bracketMember g site start
  else keyedMember g site start

/-- Reads the members of an object literal up to the closing brace. Empty entries are skipped. -/
def membersIn (g : Level) (site : Site) (slot : Slot) : (rounds : List Symbol) → Parse (List Member)
  | [] => failure
  | _ :: n => do
    let l ← look
    if l.isPunct "\x7d" then
      accept l slot
      return []
    else if l.isPunct "," then
      accept l .plain
      membersIn g .object slot n
    else
      let m ← member g site
      if ← tryPunct "," .plain then
        return m :: (← membersIn g .object slot n)
      else
        expect "\x7d" slot
        return [m]

/-- Reads an object literal behind the opening brace, with the slot behind it. -/
def objectTail (g : Level) (site : Site) (start : Place) (slot : Slot) : Parse Expr := do
  let members ← rounds (membersIn g site slot)
  return .object (← extentFrom start) members

/-- Reads an object literal where a block could stand. -/
def objectHead (g : Level) (k : Context) : Parse Expr := do
  let l ← look
  guard (l.isPunct "\x7b")
  accept l .plain
  objectTail g .leading l.start.place k.target

/-- Reads an array literal behind the opening bracket, with the slot behind it. -/
def arrayTail (g : Level) (start : Place) (slot : Slot) : Parse Expr := do
  let elements := withoutTrailing (← entries g "]" slot)
  return .array (← extentFrom start) elements

/-! ## Classes -/

/-- Reads a field or a method of a class. -/
def classMember (g : Level) : Parse Unit := do
  let _ ← decorators g
  let (isMethod, site) ← modifiers .inClass
  let _ ← key g site
  if isMethod || (← look).isPunct "(" then
    methodTail g
  else
    if ← tryPunct "=" .plain then
      let _ ← g.expr .statement
    semicolon

/-- Reads the statements of a class behind the word `static`, with the brace before them. -/
def staticBlock (g : Level) : Parse Unit := do
  expectWord "static" .ending
  let _ ← tryInserted .plain
  let _ ← block g .plain

/-- Reads the members of a class up to the closing brace, with the slot behind it. -/
def classBodyIn (g : Level) (slot : Slot) : (rounds : List Symbol) → Parse Unit
  | [] => failure
  | _ :: n => do
    let l ← look
    if l.isPunct "\x7d" then
      accept l slot
    else if l.isPunct ";" then
      accept l .plain
      classBodyIn g slot n
    else
      let next := l.next .ending
      let behind := if next.token == .inserted then next.next .plain else next
      if l.isWord "static" && behind.isPunct "\x7b" then staticBlock g else classMember g
      classBodyIn g slot n

/-- Reads a class behind its keyword and its name, with the slot behind it. -/
def classTail (g : Level) (slot : Slot) : Parse Unit := do
  if ← tryWord "extends" .plain then
    let _ ← g.expr .inner
  expect "\x7b" .plain
  rounds (classBodyIn g slot)

/-- Reads a class expression behind its keyword. -/
def classExpr (g : Level) (k : Context) (start : Place) : Parse Expr := do
  unless (← look).isWord "extends" do
    let _ ← tryAnyWord .plain
  classTail g k.operand
  return .other (.itself (← extentFrom start) .classExpression)

end IndexedLoop.Grammar
