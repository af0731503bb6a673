import IndexedLoop.Surface.Basic
import IndexedLoop.Surface.Token

/-!
# Reading with a cursor

A `Parse α` reads an `α` from a cursor, which ends up behind the last token read, with the slot in which
the next one stands. A reader that fails leaves no trace, so another one can be tried from the same
place.
-/

namespace IndexedLoop

/-- Reads an `α` and moves the cursor behind it, or fails. -/
abbrev Parse := StateT Cursor Option

namespace Parse

/-- The next token, not read yet. -/
def look : Parse Lexeme := do
  return (← get).lexeme

/-- Reads the token that was looked at. The slot behind it is given. -/
def accept (l : Lexeme) (slot : Slot) : Parse Unit :=
  set (l.stop.facing slot)

/-- Changes the slot that the cursor stands at. -/
def face (slot : Slot) : Parse Unit :=
  modify (·.facing slot)

/-- Reads this punctuation if it is next, and says whether it was. -/
def tryPunct (p : String) (slot : Slot) : Parse Bool := do
  let l ← look
  if l.isPunct p then
    accept l slot
    return true
  else return false

/-- Reads this word if it is next, and says whether it was. -/
def tryWord (w : String) (slot : Slot) : Parse Bool := do
  let l ← look
  if l.isWord w then
    accept l slot
    return true
  else return false

/-- Reads this punctuation. -/
def expect (p : String) (slot : Slot) : Parse Unit := do
  guard (← tryPunct p slot)

/-- Reads this word. -/
def expectWord (w : String) (slot : Slot) : Parse Unit := do
  guard (← tryWord w slot)

/-- Reads any word. -/
def word (slot : Slot) : Parse Surface.Name := do
  let l ← look
  match l.token with
  | .word text =>
    accept l slot
    return ⟨l.extent, text⟩
  | _ => failure

/-- Reads a word if one is next. -/
def tryAnyWord (slot : Slot) : Parse (Option Surface.Name) := do
  match (← look).token with
  | .word _ => return some (← word slot)
  | _ => return none

/-- Reads a string. -/
def string (slot : Slot) : Parse Unit := do
  let l ← look
  match l.token with
  | .string _ => accept l slot
  | _ => failure

/-- The extent from a place to the end of the last token. -/
def extentFrom (start : Place) : Parse Extent := do
  return ⟨start, (← get).place⟩

/-- Runs a reader with a round for every symbol left, and one more. Every round of a list reads a token,
so the rounds never run out before the text does. -/
def rounds {α : Type} (p : (rounds : List Symbol) → Parse α) : Parse α := do
  p (.char ' ' :: (← get).rest)

/-! ## Semicolons -/

/-- Reads the end of a statement: a semicolon, written or inserted. -/
def semicolon : Parse Unit := do
  let l ← look
  guard (l.isPunct ";" || l.token == .inserted)
  accept l .plain

/-- Reads a semicolon if one is inserted here. Without one the slot stays as it is. -/
def tryInserted (slot : Slot) : Parse Bool := do
  let l ← look
  if l.token == .inserted then
    accept l slot
    return true
  else return false

/-! ## Patterns in object literals -/

/-- Notes the place of something that may stand in a pattern only. -/
def notePending (p : Place) : Parse Unit :=
  modify fun c => { c with pending := p :: c.pending }

/-- Takes back the notes of these places: they are part of a pattern. -/
def settle (places : List Place) : Parse Unit :=
  modify fun c => { c with pending := c.pending.filter fun p => !places.contains p }

/-! ## Weights -/

/-- Notes something that speaks for this reading. -/
def gain : Parse Unit :=
  modify fun c => { c with gains := c.gains + 1 }

/-- Notes `n` things that speak against this reading. -/
def lose (n : Nat) : Parse Unit :=
  modify fun c => { c with losses := c.losses + n }

/-- Reads in the first way, or in the second if that fails. If what was read is in doubt, the second way
goes first, provided that `prefers` says so. -/
def contest {α : Type} (first second : Parse α) (doubtful : Cursor → α → Cursor → Bool)
    (prefers : Parse Bool) : Parse α := fun c =>
  match first c with
  | none => second c
  | some (a, d) =>
    if doubtful c a d && (prefers c).any (·.1) then (second c).or (some (a, d)) else some (a, d)

/-- Both readers succeed here, and the weights behind them compare as asked for. -/
def compareWeights {α β : Type} (p : Parse α) (q : Parse β) (ok : Int → Int → Bool) : Parse Bool :=
  fun c =>
    match p c, q c with
    | some (_, d), some (_, e) => some (ok d.weight e.weight, c)
    | _, _ => some (false, c)

end Parse

end IndexedLoop
