import IndexedLoop.ForEach
import IndexedLoop.NameSupply
import IndexedLoop.Printer
import IndexedLoop.Tree.Walk

/-!
# Converting programs

A `Converter` puts an indexed loop in place of every `forEach` statement of a program, and then goes
on inside the loop, so that one pass converts what is nested too. It names the loop variables from a
`NameSupply` and counts the conversions. One converter can work on many programs: by default it never
uses a number twice.
-/

namespace IndexedLoop

/-- How long numbers are not used again. -/
inductive CounterScope where
  /-- Over all programs. -/
  | batch
  /-- Within one program. -/
  | perFile
deriving DecidableEq, Inhabited, Repr

/-- The name of a scope. -/
def CounterScope.name : CounterScope → String
  | .batch => "Batch"
  | .perFile => "PerFile"

/-- The choices of a converter. -/
structure Config where
  scope : CounterScope := .batch
  /-- The stem of the names of loop indices. -/
  indexStem : String := "i"
  /-- The stem of the names of array lengths. -/
  lengthStem : String := "len"
  /-- The names in a program that start with `$` are not used. -/
  reserveUserNames : Bool := true
deriving DecidableEq, Repr

/-- What a conversion carries along: the names, the number of converted statements, and the log. -/
structure Conversion where
  names : NameSupply
  converted : Nat
  log : List LogRecord
deriving DecidableEq, Repr

namespace Conversion

/-- Puts a loop in place of a statement that is the idiom. -/
def convertStmt (config : Config) (s : Stmt) (st : Conversion) : Stmt × Conversion :=
  match ForEach.ofStmt? s with
  | none => (s, st)
  | some each =>
    let receiver := each.receiver.render
    let index := st.names.draw config.indexStem
    let length := index.2.draw config.lengthStem
    (.forLoop (each.toLoop index.1 length.1),
      { names := length.2
        converted := st.converted + 1
        log := st.log ++ receiver.log ++ [⟨.debug, s!"converting forEach over {receiver.text}"⟩] })

theorem weight_convertStmt (config : Config) (s : Stmt) (st : Conversion) :
    (convertStmt config s st).1.weight ≤ s.weight := by
  unfold convertStmt
  split
  · exact Nat.le_refl _
  · rename_i each h
    exact ForEach.weight_toLoop_le h _ _

/-- The conversion as hooks: only statements change. -/
def hooks (config : Config) : Hooks Conversion :=
  { Hooks.idle Conversion with
    stmt := convertStmt config
    stmt_le := weight_convertStmt config }

end Conversion

/-- Converts programs one after the other. -/
structure Converter where
  config : Config
  names : NameSupply
  /-- The number of statements converted so far. -/
  converted : Nat
deriving DecidableEq, Repr

namespace Converter

/-- A converter that has converted nothing. -/
def new (config : Config) : Converter := ⟨config, NameSupply.new, 0⟩

/-- The names with which a program is started. -/
def namesFor (c : Converter) (program : Program) : NameSupply :=
  let names := if c.config.scope = .perFile then c.names.restart else c.names
  if c.config.reserveUserNames then names.reserveProgram program else names

/-- The converter after a conversion that started from it. -/
def after (c : Converter) (st : Conversion) : Converter :=
  { c with names := st.names, converted := st.converted }

/-- Converts a program. Gives the program, the converter for the next one, and the log. -/
def convert (c : Converter) (program : Program) : Program × Converter × List LogRecord :=
  let names := c.namesFor program
  let log := if c.config.reserveUserNames then names.reserveLog else []
  let r := walkProgram (Conversion.hooks c.config) program ⟨names, c.converted, log⟩
  let done := r.2.converted - c.converted
  (r.1, c.after r.2, r.2.log ++ [⟨.info, s!"converted {done} forEach calls"⟩])

/-- Converts statements, with the counter and the reserved names as they are. -/
def convertStmts (c : Converter) (stmts : List Stmt) : List Stmt × Converter :=
  let r := walkStmts (Conversion.hooks c.config) stmts ⟨c.names, c.converted, []⟩
  (r.1, c.after r.2)

end Converter

end IndexedLoop
