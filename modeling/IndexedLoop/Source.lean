import IndexedLoop.Grammar.Program
import IndexedLoop.Lowering

/-!
# Reading a source

`Reading.ofSymbols?` reads the symbols of a source into a program. A source that is not well formed has
no reading. In a well formed one every top level statement is read by itself: those that fail leave an
error and are missing in the program.
-/

namespace IndexedLoop

/-- What reading a well formed source gives. -/
structure Reading where
  /-- The statements that could be read. -/
  program : Program
  /-- The error of every statement that could not. -/
  errors : List (Located ReadError)
  log : List LogRecord

namespace Reading

/-- Everything could be read. -/
def isComplete (r : Reading) : Bool := r.errors.isEmpty

/-- Reads the next statement. -/
def add (file : String) (r : Reading) (s : Surface.Stmt) : Reading :=
  match (s.lower file).run r.log with
  | (.ok stmt, log) => { r with program := { r.program with body := r.program.body ++ [stmt] }, log }
  | (.error e, log) => { r with errors := r.errors ++ [e], log }

/-- Reads the surface tree of a source. -/
def ofSurface (file : String) (p : Surface.Program) : Reading :=
  p.body.foldl (add file) ⟨⟨p.extent.toSpan file, []⟩, [], []⟩

/-- Reads the symbols of a source. -/
def ofSymbols? (file : String) (symbols : List Symbol) : Option Reading :=
  (Surface.Program.read? symbols).map (ofSurface file)

/-- Reads the bytes of a source. -/
def ofBytes? (file : String) (bytes : List UInt8) : Option Reading :=
  ofSymbols? file (Utf8.decode bytes)

/-- Reads the text of a source. -/
def ofText? (file text : String) : Option Reading :=
  ofSymbols? file (Symbol.ofString text)

end Reading

end IndexedLoop
