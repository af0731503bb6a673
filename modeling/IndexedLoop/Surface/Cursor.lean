import IndexedLoop.Span
import IndexedLoop.Text.Utf8

/-!
# Places and cursors

A `Cursor` stands at a place of a source and sees the symbols that follow. `advance` moves it and keeps
count of rows, columns and bytes. Its `Slot` says what may stand next, which decides how the text is cut
into tokens. An `Extent` is the stretch between two places, which becomes a span once the file is known.
-/

namespace IndexedLoop

/-- A place in a source: row, byte column and byte offset. -/
structure Place where
  row : Nat
  col : Nat
  offset : Nat
deriving DecidableEq, Inhabited, Repr

namespace Place

/-- The start of a source. -/
def origin : Place := ⟨0, 0, 0⟩

/-- The place behind a symbol. Only a line feed starts a row. -/
def after (p : Place) (s : Symbol) : Place :=
  if s = .char '\n' then ⟨p.row + 1, 0, p.offset + 1⟩
  else ⟨p.row, p.col + s.size, p.offset + s.size⟩

end Place

/-- The stretch of a source between two places. -/
structure Extent where
  start : Place
  stop : Place
deriving DecidableEq, Inhabited, Repr

namespace Extent

/-- The extent as a span of a file. -/
def toSpan (e : Extent) (file : String) : Span :=
  ⟨file, ⟨e.start.row, e.start.col⟩, ⟨e.stop.row, e.stop.col⟩, e.start.offset, e.stop.offset⟩

/-- From the start of one extent to the end of another. -/
def join (a b : Extent) : Extent := ⟨a.start, b.stop⟩

end Extent

/-- What may stand behind the last token. Where a statement may end, a line break can end it; where an
operand is complete, an operator is looked for. -/
structure Slot where
  /-- The statement may end here. -/
  ends : Bool
  /-- An operand is complete, so an operator may follow. -/
  joins : Bool
  /-- A word may follow. -/
  words : Bool
deriving DecidableEq, Inhabited, Repr

namespace Slot

/-- No statement ends here and no operand is complete. -/
def plain : Slot := ⟨false, false, true⟩

/-- A statement may end here, or a word follows. -/
def ending : Slot := ⟨true, false, true⟩

/-- A statement may end here, an operator may follow, and so may a word. -/
def wide : Slot := ⟨true, true, true⟩

/-- The same, and a statement may end here. -/
def ended (s : Slot) : Slot := { s with ends := true }

end Slot

/-- A place in a source with the symbols that follow it, and what is known of the text before it. -/
structure Cursor where
  place : Place
  rest : List Symbol
  /-- What may stand next. -/
  slot : Slot
  /-- The places of what was read in object literals and may stand in patterns only, as the default in
  `{a = 1}`, as long as the literal has not turned out to be a pattern. -/
  pending : List Place
  /-- How many things were read that speak for the way in which they were read. -/
  gains : Nat
  /-- How many things were read that speak against it. -/
  losses : Nat
deriving DecidableEq, Inhabited, Repr

namespace Cursor

/-- The start of a source. -/
def start (symbols : List Symbol) : Cursor := ⟨Place.origin, symbols, .plain, [], 0, 0⟩

/-- Of two readings of a text the one with more weight counts. -/
def weight (c : Cursor) : Int := c.gains - c.losses

/-- The same place with another slot. -/
def facing (c : Cursor) (slot : Slot) : Cursor := { c with slot }

/-- Moves over `n` symbols, or to the end. -/
def advance (c : Cursor) : Nat → Cursor
  | 0 => c
  | n + 1 =>
    match c.rest with
    | [] => c
    | s :: rest => advance { c with place := c.place.after s, rest } n

/-- Moves to the end of the source. -/
def atEnd (c : Cursor) : Cursor := c.advance c.rest.length

end Cursor

end IndexedLoop
