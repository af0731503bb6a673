/-!
# Log records

What a run says about itself while it works: a level and a line of text. Records are plain data and
come in the order in which they were written.
-/

namespace IndexedLoop

/-- The weight of a record. -/
inductive LogLevel where
  | debug | info | warn | error
deriving DecidableEq, Inhabited, Repr

/-- The name of a level in front of a record. -/
def LogLevel.name : LogLevel → String
  | .debug => "DEBUG"
  | .info => "INFO"
  | .warn => "WARN"
  | .error => "ERROR"

/-- One line of a log. -/
structure LogRecord where
  level : LogLevel
  text : String
deriving DecidableEq, Inhabited, Repr

/-- The line as it is shown. -/
def LogRecord.line (r : LogRecord) : String :=
  s!"{r.level.name} {r.text}"

end IndexedLoop
