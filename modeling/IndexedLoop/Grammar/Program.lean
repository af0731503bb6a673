import IndexedLoop.Grammar.Statement

/-!
# The grammar of sources

`Level.at n` reads pieces nested up to `n` deep. A source is read at the level of its length, which its
nesting cannot exceed. `Surface.Program.read?` gives the surface tree of a source, or nothing if the
source is not well formed.
-/

namespace IndexedLoop

open Surface

/-- The readers of pieces that nest up to `n` deep. -/
def Level.at : Nat → Level
  | 0 => .empty
  | n + 1 =>
    { expr := fun k c => Grammar.expr (Level.at n) k c
      unary := fun k updates c => Grammar.unary (Level.at n) k updates c
      callee := fun k c => Grammar.callee (Level.at n) k c
      braced := fun k c => Grammar.braced (Level.at n) k c
      element := fun slot c => Grammar.element (Level.at n) slot c
      stmt := fun alone c => Grammar.statement (Level.at n) alone c }

namespace Grammar

open Parse

/-- Reads the line at the start of a source that names the program to run it with. -/
def hashBang : Parse (List Stmt) := do
  let start := (← look).start
  if Lexical.startsWith ['#', '!'] start.rest then
    let stop := start.advance (Lexical.runLength (fun s => !s.isChar '\n') start.rest)
    set stop
    return [.other ⟨⟨start.place, stop.place⟩, .hashBangLine⟩]
  else return []

/-- Reads statements up to the end of the source. -/
def allStatementsIn (g : Level) : (rounds : List Symbol) → Parse (List Stmt)
  | [] => failure
  | _ :: n => do
    if (← look).token = .finish then return []
    else
      let s ← statement g false
      return s :: (← allStatementsIn g n)

/-- Reads the statements of a source. What may stand in patterns only stands in patterns. -/
def source (g : Level) : Parse (List Stmt) := do
  let first ← hashBang
  let rest ← rounds (allStatementsIn g)
  guard (← get).pending.isEmpty
  return first ++ rest

end Grammar

/-- The start of a source, behind the byte order mark if it has one. -/
def Surface.Program.start (symbols : List Symbol) : Cursor :=
  let c := Cursor.start symbols
  if Lexical.startsWith ['﻿'] symbols then c.advance 1 else c

/-- The surface tree of a source, or nothing if the source is not well formed. The tree starts behind
the blanks at the start of the source. No source with a null character is well formed. -/
def Surface.Program.read? (symbols : List Symbol) : Option Surface.Program :=
  let c := Surface.Program.start symbols
  let first := c.advance (Lexical.blanks c.rest)
  if symbols.any (·.isChar '\x00') then none
  else
    match Grammar.source (Level.at (symbols.length + 1)) c with
    | none => none
    | some (body, _) => some ⟨⟨first.place, c.atEnd.place⟩, body⟩

end IndexedLoop
