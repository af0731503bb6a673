import IndexedLoop.Log
import IndexedLoop.Tree.Event

/-!
# Fresh names

A `NameSupply` hands out names of the form `$` + stem + number. All stems share one counter, and a
reserved name is never handed out: `draw` takes the next number whose name is free. Among any
`reserved.length + 1` numbers one is free, so the search is bounded by the number of reserved names.
-/

namespace IndexedLoop

/-- A source of fresh names. -/
structure NameSupply where
  /-- The last number that was used. -/
  counter : Nat
  /-- The names that are never handed out, each once. -/
  reserved : List String
deriving DecidableEq, Repr

namespace NameSupply

/-- A supply that has handed out nothing and may hand out anything. -/
def new : NameSupply := ⟨0, []⟩

/-- The name with this stem and number. -/
def numbered (stem : String) (n : Nat) : String := "$" ++ stem ++ toString n

/-- The first number from `n` on whose name is free, if one of the next `tries` is; else the number
after these. -/
def firstFree (reserved : List String) (stem : String) : (tries n : Nat) → Nat
  | 0, n => n
  | tries + 1, n =>
    if numbered stem n ∈ reserved then firstFree reserved stem tries (n + 1) else n

/-- Hands out the next free name with this stem. -/
def draw (s : NameSupply) (stem : String) : String × NameSupply :=
  let n := firstFree s.reserved stem s.reserved.length (s.counter + 1)
  (numbered stem n, { s with counter := n })

/-- Makes sure that a name is never handed out. -/
def reserve (s : NameSupply) (name : String) : NameSupply :=
  { s with reserved := s.reserved.insert name }

/-- Starts counting again. -/
def restart (s : NameSupply) : NameSupply :=
  { s with counter := 0 }

/-- The names of a program that start as fresh names do, each once. -/
def dollarNames (program : Program) : List String :=
  (program.names.filter fun name => name.startsWith "$").foldl (fun names name => names.insert name) []

/-- Reserves the names of a program that start as fresh names do, and only them. -/
def reserveProgram (s : NameSupply) (program : Program) : NameSupply :=
  { s with reserved := dollarNames program }

/-- The record that reserving the names of a program leaves in a log. -/
def reserveLog (s : NameSupply) : List LogRecord :=
  if s.reserved.isEmpty then [] else [⟨.debug, s!"reserved {s.reserved.length} user names"⟩]

end NameSupply

end IndexedLoop
