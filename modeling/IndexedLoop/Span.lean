/-!
# Places in a source text

A `Point` is a zero-based row and byte column. A `Span` is a stretch of a source text: the file it
lies in, its first point and the point one past its end, and the same two ends as byte offsets.
Nodes that no source text holds have the span `Span.none`.
-/

namespace IndexedLoop

/-- A place in a text: the row counts line feeds, the column counts bytes. -/
structure Point where
  row : Nat
  col : Nat
deriving DecidableEq, Inhabited, Repr

/-- A stretch of a source text. A text without a file name has the file `""`. -/
structure Span where
  file : String
  first : Point
  last : Point
  byteStart : Nat
  byteEnd : Nat
deriving DecidableEq, Inhabited, Repr

namespace Span

/-- The span of a node that stands in no source text. -/
def none : Span := ⟨"", ⟨0, 0⟩, ⟨0, 0⟩, 0, 0⟩

/-- The same stretch, in `file`. -/
def inFile (s : Span) (file : String) : Span :=
  { s with file }

/-- The name of the file, if the span has one. -/
def file? (s : Span) : Option String :=
  if s.file.isEmpty then Option.none else some s.file

/-- A span without extent; its file and its place do not matter. -/
def isEmpty (s : Span) : Bool :=
  s.byteStart == s.byteEnd && s.first == s.last

/-- The ends of the span come in order. -/
def Ordered (s : Span) : Prop :=
  s.byteStart ≤ s.byteEnd

instance (s : Span) : Decidable s.Ordered :=
  inferInstanceAs (Decidable (_ ≤ _))

/-- The place of a span as it stands in front of a message: the file, if there is one, and the
first and last point in brackets. -/
def text (s : Span) : String :=
  let points := s!"[{s.first.row}:{s.first.col}..{s.last.row}:{s.last.col}]"
  match s.file? with
  | some file => s!"{file} {points}"
  | .none => points

@[simp]
theorem file_inFile (s : Span) (file : String) : (s.inFile file).file = file := rfl

@[simp]
theorem isEmpty_inFile (s : Span) (file : String) : (s.inFile file).isEmpty = s.isEmpty := rfl

@[simp]
theorem isEmpty_none : none.isEmpty = true := rfl

end Span

end IndexedLoop
