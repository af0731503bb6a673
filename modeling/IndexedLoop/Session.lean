import IndexedLoop.Converter
import IndexedLoop.Files
import IndexedLoop.Source
import IndexedLoop.Text.Escaped

/-!
# Sessions

A session takes sources one after the other: it reads each, converts it unless told not to, and prints
it. All sources of a session share one converter, so that no loop variable is named twice. The converter
is made when the first source needs it, with the configuration of that moment, and keeps it. A source
that fails changes nothing.
-/

namespace IndexedLoop

/-- Where a program comes from. -/
inductive Input where
  /-- A text without a file. -/
  | text (source : String)
  /-- A tree, with the name of its file if it has one. -/
  | tree (program : Program) (file : Option String)
  /-- A file by its path. -/
  | file (path : String)

/-- What a session makes of a source. -/
structure Output where
  file : Option String
  program : Program
  rendered : Rendered

/-- Why a source gives no output. -/
inductive Failure where
  | file (error : FileError)
  /-- The source is not well formed. -/
  | malformed (source : String)
  /-- Some statements of the source could not be read. -/
  | unreadable (source : String) (errors : List (Located ReadError))

/-- The wording of a failure. -/
def Failure.text : Failure → String
  | .file error => error.text
  | .malformed source => s!"Parsing {source} failed"
  | .unreadable source errors => s!"Parsing {source} failed with {errors.length} errors"

/-- The result of a source and what was logged on the way. -/
structure Answer where
  result : Except Failure Output
  log : List LogRecord

/-- A session between two sources. -/
structure Session where
  /-- Sources are converted, not only printed. -/
  converts : Bool := true
  config : Config := {}
  /-- The converter, once it was needed. -/
  converter : Option Converter := none

namespace Session

/-- The converter of the session, made now if there is none yet. -/
def active (s : Session) : Converter := s.converter.getD (Converter.new s.config)

/-- The session with its converter made. -/
def opened (s : Session) : Session := { s with converter := some s.active }

/-- Converts a program if the session converts. -/
def convert (s : Session) (program : Program) : Program × Session × List LogRecord :=
  if s.converts then
    let (program, converter, log) := s.active.convert program
    (program, { s with converter := some converter }, log)
  else (program, s, [])

/-- The record of how much of an output is missing. -/
def missingLog (r : Rendered) (file : Option String) : List LogRecord :=
  if r.isComplete then []
  else
    let place := (file.map fun f => s!" in {Escaped.quoted f}").getD ""
    [⟨.warn, s!"{r.faults.length} nodes could not be rendered{place}"⟩]

/-- Converts and prints a program, with the log so far. A report at a span that runs backwards cannot be
made. -/
def finish (s : Session) (program : Program) (file : Option String) (log : List LogRecord) :
    Except ReversedSpan (Answer × Session) := do
  let (program, s, conversion) := s.convert program
  let rendered := program.render
  let _ ← Printer.new.print rendered
  return (⟨.ok ⟨file, program, rendered⟩, log ++ conversion ++ rendered.log ++ missingLog rendered file⟩, s)

/-- The record of a source with errors. -/
def errorLog (count : Nat) (source : String) : LogRecord :=
  ⟨.error, s!"There were {count} errors while parsing {source}"⟩

/-- Takes the reading of a source, if it has one, further. -/
def finishReading (s : Session) (reading? : Option Reading) (file : Option String)
    (log : List LogRecord) : Except ReversedSpan (Answer × Session) :=
  let source := file.getD "<string>"
  match reading? with
  | none => .ok (⟨.error (.malformed source), log⟩, s)
  | some r =>
    let log := log ++ r.log
    if r.isComplete then s.finish r.program file log
    else
      .ok (⟨.error (.unreadable source r.errors), log ++ [errorLog r.errors.length source]⟩, s)

/-- Takes one source. -/
def process (files : Files) (s : Session) : Input → Except ReversedSpan (Answer × Session)
  | .text source => s.finishReading (Reading.ofText? "" source) none []
  | .tree program file => s.finish program file []
  | .file path =>
    let log := [⟨.info, s!"processing {Escaped.quoted path}"⟩]
    match files.read path with
    | .error error => .ok (⟨.error (.file error), log⟩, s)
    | .ok bytes => s.finishReading (Reading.ofBytes? path bytes) (some path) log

/-- Takes sources in order. One that fails does not stop the others. -/
def processAll (files : Files) (s : Session) :
    List Input → Except ReversedSpan (List Answer × Session)
  | [] => .ok ([], s)
  | input :: rest => do
    let (answer, s) ← s.process files input
    let (answers, s) ← s.processAll files rest
    return (answer :: answers, s)

end Session

end IndexedLoop
