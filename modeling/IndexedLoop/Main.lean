import IndexedLoop.CommandLine

/-!
# The program

Reads the files that the arguments name, runs, prints the output and gives the exit code.
-/

open IndexedLoop

/-- The bytes of the files among the arguments that can be read. -/
def loadFiles (args : List String) : IO Files := do
  let mut loaded : List (String × List UInt8) := []
  for arg in args do
    let bytes? ← try
        pure (some (← IO.FS.readBinFile arg))
      catch _ => pure none
    if let some bytes := bytes? then
      loaded := loaded ++ [(arg, bytes.toList)]
  return Files.ofList loaded

def main (args : List String) : IO UInt32 := do
  let files ← loadFiles args
  match CommandLine.run files args with
  | .ok outcome =>
    IO.print outcome.printed
    return outcome.code.toUInt32
  | .error _ => return 101
