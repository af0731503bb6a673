import IndexedLoop.Session
import IndexedLoop.Tree.Dump

/-!
# The command line

`Options.parse` reads the arguments from left to right: the first one that is wrong, or that asks for
help or the version, decides. `run` takes the files in order and gives what is printed and the exit
code.
-/

namespace IndexedLoop.CommandLine

/-- What the arguments ask for. -/
structure Options where
  noConvert : Bool := false
  perFileNames : Bool := false
  dumpTree : Bool := false
  files : List String := []
deriving DecidableEq, Repr

/-- What the arguments can ask for instead of a run. -/
inductive Refusal where
  | shortHelp
  | longHelp
  | version
  /-- The arguments are wrong. -/
  | usage
deriving DecidableEq, Repr

/-- The text of the version. -/
def versionText : String := "reloop 0.1.0\n"

/-- The short help. -/
def shortHelpText : String :=
  "Usage: reloop [OPTIONS] <FILES>...\n\nArguments:\n" ++
  "  <FILES>...  The source files. Processed in order, output goes to stdout\n\nOptions:\n" ++
  "      --no-opt          only parses and re-renders the files, without rewriting forEach calls\n" ++
  "      --per-file-names  Restarts the loop variable numbering for every file\n" ++
  "      --dump-ast        Prints the (optimized) AST as an s-expression instead of source code\n" ++
  "  -h, --help            Print help (see more with '--help')\n" ++
  "  -V, --version         Print version\n"

/-- The long help. -/
def longHelpText : String :=
  "Rewrites `array.forEach(function(x)\x7b...\x7d)` into indexed for loops and prints the result.\n\n" ++
  "Usage: reloop [OPTIONS] <FILES>...\n\nArguments:\n  <FILES>...\n" ++
  "          The source files. Processed in order, output goes to stdout\n\nOptions:\n" ++
  "      --no-opt\n" ++
  "          only parses and re-renders the files, without rewriting forEach calls\n\n" ++
  "      --per-file-names\n" ++
  "          Restarts the loop variable numbering for every file\n\n" ++
  "      --dump-ast\n" ++
  "          Prints the (optimized) AST as an s-expression instead of source code\n\n" ++
  "  -h, --help\n          Print help (see a summary with '-h')\n\n" ++
  "  -V, --version\n          Print version\n"

namespace Options

/-- Sets a flag that was not set before. -/
def setOnce (was : Bool) (options : Options) : Except Refusal Options :=
  if was then .error .usage else .ok options

/-- Takes the name of a file, which is not empty. -/
def takeFile (o : Options) (file : String) : Except Refusal Options :=
  if file = "" then .error .usage else .ok { o with files := o.files ++ [file] }

/-- Takes an argument in front of `--`. -/
def take (o : Options) (arg : String) : Except Refusal Options :=
  match arg with
  | "--no-opt" => setOnce o.noConvert { o with noConvert := true }
  | "--per-file-names" => setOnce o.perFileNames { o with perFileNames := true }
  | "--dump-ast" => setOnce o.dumpTree { o with dumpTree := true }
  | "--help" => .error .longHelp
  | "--version" => .error .version
  | _ =>
    if arg.startsWith "-h" then .error .shortHelp
    else if arg.startsWith "-V" then .error .version
    else if arg.startsWith "-" ∧ arg ≠ "-" then .error .usage
    else o.takeFile arg

/-- Takes arguments. Behind `--` all of them are files. -/
def parseFrom (o : Options) : List String → Except Refusal Options
  | [] => .ok o
  | "--" :: rest => rest.foldlM takeFile o
  | arg :: rest => do
    let o ← o.take arg
    parseFrom o rest

/-- Reads the arguments. At least one file has to be named. -/
def parse (args : List String) : Except Refusal Options := do
  let o ← parseFrom {} args
  if o.files.isEmpty then .error .usage else .ok o

/-- The session that the options ask for. -/
def session (o : Options) : Session where
  converts := !o.noConvert
  config := { scope := if o.perFileNames then .perFile else .batch }

end Options

/-- What a run prints, and its exit code. -/
structure Outcome where
  code : Nat
  printed : String
deriving DecidableEq, Repr

/-- The outcome of arguments that ask for no run. -/
def Refusal.outcome : Refusal → Outcome
  | .shortHelp => ⟨0, shortHelpText⟩
  | .longHelp => ⟨0, longHelpText⟩
  | .version => ⟨0, versionText⟩
  | .usage => ⟨2, ""⟩

/-- The text of an output. -/
def printedText (o : Options) (output : Output) : String :=
  if o.dumpTree then output.program.dump.text ++ "\n" else output.rendered.text ++ "\n"

/-- The outcome of the answers to the files. -/
def outcome (o : Options) (answers : List Answer) : Outcome :=
  answers.foldl (fun acc answer =>
    match answer.result with
    | .ok output => { acc with printed := acc.printed ++ printedText o output }
    | .error _ => { acc with code := 1 }) ⟨0, ""⟩

/-- Runs on arguments and files. -/
def run (files : Files) (args : List String) : Except ReversedSpan Outcome :=
  match Options.parse args with
  | .error refusal => .ok refusal.outcome
  | .ok o => do
    let (answers, _) ← o.session.processAll files (o.files.map .file)
    return outcome o answers

end IndexedLoop.CommandLine
