import IndexedLoop.Proofs.Walk
import IndexedLoop.Session
import Mathlib

/-!
# Runs of a session

A session is asked for one thing after the other (`Session.Step`): to take sources, to convert or only print
from now on, to use another configuration. A source that fails, or is only printed, leaves the session as it
was (`Session.moves_process`). So a run without these sources gives the same answers to the others and ends in
the same session (`Session.run_remaining`).

If numbers are used again in each source, a converter keeps nothing that a later source could see
(`Converter.convert_perFile`), and every source is taken as by a new session
(`Session.perFile_forgets_history`).
-/

namespace IndexedLoop

/-! ## What a conversion depends on -/

namespace Conversion

/-- The second state reserves the same names as the first. -/
def SameReserved (a b : Conversion) : Prop := b.names.reserved = a.names.reserved

theorem SameReserved.trans {a b c : Conversion} (hab : SameReserved a b) (hbc : SameReserved b c) :
    SameReserved a c :=
  Eq.trans hbc hab

/-- A conversion leaves the reserved names as they are. -/
theorem reserved_walkStmts (config : Config) (ss : List Stmt) (st : Conversion) :
    (walkStmts (hooks config) ss st).2.names.reserved = st.names.reserved := by
  have closed : (Law.along SameReserved).Closed (hooks config).stmt := by
    refine Law.along_closed (R := SameReserved) (fun _ => rfl) SameReserved.trans fun s st => ?_
    show (convertStmt config s st).2.names.reserved = st.names.reserved
    unfold convertStmt
    split <;> rfl
  exact (closed.holds (Hooks.onStatements_idle _ _)).stmts ss st

/-- What is left of statements depends on the names that are free, not on what was converted or logged
before. -/
theorem walkStmts_congr (config : Config) (ss : List Stmt) {a b : Conversion} (names : a.names = b.names) :
    (walkStmts (hooks config) ss a).1 = (walkStmts (hooks config) ss b).1 := by
  have closed : (Law.beside (hooks config) fun a b : Conversion => a.names = b.names).Closed
      (hooks config).stmt := by
    refine Law.beside_closed (Hooks.onStatements_idle _ _) fun s a b names => ?_
    show (convertStmt config s a).1 = (convertStmt config s b).1 ∧
      (convertStmt config s a).2.names = (convertStmt config s b).2.names
    unfold convertStmt
    rw [names]
    split
    · exact ⟨rfl, names⟩
    · exact ⟨rfl, rfl⟩
  exact ((closed.holds (Hooks.onStatements_idle _ _)).stmts ss b a names).1

end Conversion

namespace Converter

theorem reserved_convert (c : Converter) (program : Program) :
    (c.convert program).2.1.names.reserved = (c.namesFor program).reserved :=
  Conversion.reserved_walkStmts ..

/-- The program that a conversion gives depends on the configuration and on the names with which it
starts. -/
theorem convert_congr {c d : Converter} (config : c.config = d.config) {program : Program}
    (names : c.namesFor program = d.namesFor program) : (c.convert program).1 = (d.convert program).1 := by
  show Program.mk program.span (walkStmts (Conversion.hooks c.config) program.body _).1 =
    Program.mk program.span (walkStmts (Conversion.hooks d.config) program.body _).1
  rw [config]
  congr 1
  exact Conversion.walkStmts_congr d.config program.body names

/-- The converter reserves names of the program at hand only: if it does not look for them, it has none. -/
def Forgets (c : Converter) : Prop :=
  c.config.scope = .perFile ∧ (c.config.reserveUserNames = false → c.names.reserved = [])

theorem forgets_new {config : Config} (scope : config.scope = .perFile) : (new config).Forgets :=
  ⟨scope, fun _ => rfl⟩

/-- A program is started with the number zero, and with its own names or none reserved. -/
theorem namesFor_eq {c : Converter} (h : c.Forgets) (program : Program) :
    c.namesFor program =
      ⟨0, if c.config.reserveUserNames then NameSupply.dollarNames program else []⟩ := by
  simp only [namesFor, h.1, ↓reduceIte]
  cases reserve : c.config.reserveUserNames with
  | true => rfl
  | false => simp [NameSupply.restart, h.2 reserve]

theorem Forgets.convert {c : Converter} (h : c.Forgets) (program : Program) :
    (c.convert program).2.1.Forgets := by
  refine ⟨h.1, fun reserve => ?_⟩
  have off : c.config.reserveUserNames = false := reserve
  rw [reserved_convert, namesFor_eq h, off]
  rfl

/-- If numbers are used again in each program, a program is converted as by a new converter. -/
theorem convert_perFile {c : Converter} (h : c.Forgets) (program : Program) :
    (c.convert program).1 = ((new c.config).convert program).1 := by
  refine convert_congr (show c.config = (new c.config).config from rfl) ?_
  rw [namesFor_eq h, namesFor_eq (forgets_new h.1)]
  rfl

end Converter

/-! ## One source -/

/-- The source gave an output. -/
def Answer.succeeded (a : Answer) : Bool := a.result.isOk

/-- Two steps give a result if the first one does and the second one does with it. -/
theorem bind_eq_ok_iff {ε α β : Type} {x : Except ε α} {f : α → Except ε β} {b : β} :
    x >>= f = .ok b ↔ ∃ a, x = .ok a ∧ f a = .ok b := by
  cases x <;> simp [bind, Except.bind]

/-- One answer and the later ones are all answers, if the later ones are given from where the first one left off. -/
theorem collect_eq_ok_iff {ε α σ : Type} {x : Except ε (α × σ)} {y : σ → Except ε (List α × σ)} {answers : List α}
    {t : σ} :
    (do
      let (a, m) ← x
      let (later, t) ← y m
      return (a :: later, t)) = .ok (answers, t) ↔
      ∃ a later m, x = .ok (a, m) ∧ y m = .ok (later, t) ∧ answers = a :: later := by
  rw [bind_eq_ok_iff]
  constructor
  · rintro ⟨⟨a, m⟩, first, h⟩
    obtain ⟨⟨later, t'⟩, second, e⟩ := bind_eq_ok_iff.mp h
    cases e
    exact ⟨a, later, m, first, second, rfl⟩
  · rintro ⟨a, later, m, first, second, rfl⟩
    exact ⟨(a, m), first, bind_eq_ok_iff.mpr ⟨(later, t), second, rfl⟩⟩

theorem exists_eq_ok {ε α : Type} {x : Except ε α} (h : x.isOk = true) : ∃ a, x = .ok a := by
  cases x with
  | error e => cases h
  | ok a => exact ⟨a, rfl⟩

namespace Session

variable {files : Files} {s t : Session}

theorem convert_off (off : s.converts = false) (program : Program) : s.convert program = (program, s, []) := by
  simp [Session.convert, off]

theorem convert_on (on : s.converts = true) (program : Program) :
    s.convert program = ((s.active.convert program).1,
      { s with converter := some (s.active.convert program).2.1 }, (s.active.convert program).2.2) := by
  simp [Session.convert, on]

/-- A session that only prints stays as it is. One that converts has the converter behind the program. -/
theorem finish_cases {program : Program} {file : Option String} {log : List LogRecord} {a : Answer}
    (h : s.finish program file log = .ok (a, t)) :
    a.succeeded = true ∧
      (s.converts = false ∧ t = s ∨
        s.converts = true ∧ t = { s with converter := some (s.active.convert program).2.1 }) := by
  unfold finish at h
  cases converts : s.converts with
  | false =>
    rw [convert_off converts] at h
    obtain ⟨_, -, e⟩ := bind_eq_ok_iff.mp h
    cases e
    exact ⟨rfl, .inl ⟨rfl, rfl⟩⟩
  | true =>
    rw [convert_on converts] at h
    obtain ⟨_, -, e⟩ := bind_eq_ok_iff.mp h
    cases e
    exact ⟨rfl, .inr ⟨rfl, by rw [converts]⟩⟩

/-- What a reading leads to: an error, and the session stays as it is, or the end of a program. -/
theorem finishReading_cases {reading? : Option Reading} {file : Option String} {log : List LogRecord}
    {a : Answer} (h : s.finishReading reading? file log = .ok (a, t)) :
    a.succeeded = false ∧ t = s ∨ ∃ program log', s.finish program file log' = .ok (a, t) := by
  unfold finishReading at h
  cases reading? with
  | none =>
    cases h
    exact .inl ⟨rfl, rfl⟩
  | some r =>
    by_cases complete : r.isComplete = true
    · simp only [complete, if_true] at h
      exact .inr ⟨_, _, h⟩
    · simp only [complete] at h
      cases h
      exact .inl ⟨rfl, rfl⟩

/-- What a source does to a session: nothing if it fails or is only printed. -/
inductive Moves (s : Session) (a : Answer) : Session → Prop
  | stays (idle : (s.converts && a.succeeded) = false) : Moves s a s
  | converts (program : Program) (done : (s.converts && a.succeeded) = true) :
    Moves s a { s with converter := some (s.active.convert program).2.1 }

theorem moves_finish {program : Program} {file : Option String} {log : List LogRecord} {a : Answer}
    (h : s.finish program file log = .ok (a, t)) : Moves s a t := by
  obtain ⟨ok, ⟨off, rfl⟩ | ⟨on, rfl⟩⟩ := finish_cases h
  · exact .stays (by rw [off, Bool.false_and])
  · exact .converts program (by rw [on, ok, Bool.and_self])

theorem moves_finishReading {reading? : Option Reading} {file : Option String} {log : List LogRecord}
    {a : Answer} (h : s.finishReading reading? file log = .ok (a, t)) : Moves s a t := by
  obtain ⟨failed, rfl⟩ | ⟨program, log', finished⟩ := finishReading_cases h
  · exact .stays (by rw [failed, Bool.and_false])
  · exact moves_finish finished

theorem moves_process {input : Input} {a : Answer} (h : s.process files input = .ok (a, t)) :
    Moves s a t := by
  cases input with
  | text source => exact moves_finishReading h
  | tree program file => exact moves_finish h
  | file path =>
    unfold process at h
    cases bytes : files.read path with
    | error error =>
      simp only [bytes] at h
      cases h
      exact .stays (Bool.and_false _)
    | ok content =>
      simp only [bytes] at h
      exact moves_finishReading h

theorem Moves.converts_eq {a : Answer} (h : Moves s a t) : t.converts = s.converts := by
  cases h <;> rfl

/-! ## Runs -/

/-- What a session can be asked for. -/
inductive Step where
  /-- Takes sources in order. A single source is a batch of one. -/
  | sources (inputs : List Input)
  /-- Says whether sources are converted from now on, or only printed. -/
  | converts (value : Bool)
  /-- Says which configuration a converter gets that is made from now on. -/
  | config (value : Config)
  /-- Asks for the converter. -/
  | opens

/-- Does one step. Gives the answers to its sources. -/
def step (files : Files) (s : Session) : Step → Except ReversedSpan (List Answer × Session)
  | .sources inputs => s.processAll files inputs
  | .converts value => .ok ([], { s with converts := value })
  | .config value => .ok ([], { s with config := value })
  | .opens => .ok ([], s.opened)

/-- Does one step after the other. Gives the answers of each step. -/
def run (files : Files) (s : Session) : List Step → Except ReversedSpan (List (List Answer) × Session)
  | [] => .ok ([], s)
  | next :: rest => do
    let (answers, s) ← s.step files next
    let (later, s) ← s.run files rest
    return (answers :: later, s)

theorem processAll_cons {input : Input} {rest : List Input} {answers : List Answer} :
    s.processAll files (input :: rest) = .ok (answers, t) ↔
      ∃ a later m, s.process files input = .ok (a, m) ∧ m.processAll files rest = .ok (later, t) ∧
        answers = a :: later := by
  rw [processAll]
  exact collect_eq_ok_iff (y := fun m : Session => m.processAll files rest)

theorem run_cons {next : Step} {rest : List Step} {answers : List (List Answer)} :
    s.run files (next :: rest) = .ok (answers, t) ↔
      ∃ first later m, s.step files next = .ok (first, m) ∧ m.run files rest = .ok (later, t) ∧
        answers = first :: later := by
  rw [run]
  exact collect_eq_ok_iff (y := fun m : Session => m.run files rest)

/-! ## Sources that leave no trace -/

/-- The sources of a step, with their answers, that did not fail and were not only printed. -/
def remainingSources (converts : Bool) (inputs : List Input) (answers : List Answer) :
    List (Input × Answer) :=
  (inputs.zip answers).filter fun source => converts && source.2.succeeded

/-- The steps of a run, with their answers, without every source that failed and every source that was only
printed. The first argument says whether sources are converted at the start. -/
def remaining : Bool → List Step → List (List Answer) → List (Step × List Answer)
  | on, .sources inputs :: rest, answers :: later =>
    let kept := remainingSources on inputs answers
    (.sources (kept.map Prod.fst), kept.map Prod.snd) :: remaining on rest later
  | _, .converts value :: rest, answers :: later => (.converts value, answers) :: remaining value rest later
  | on, next :: rest, answers :: later => (next, answers) :: remaining on rest later
  | _, _, _ => []

theorem processAll_remaining {inputs : List Input} {answers : List Answer}
    (h : s.processAll files inputs = .ok (answers, t)) :
    t.converts = s.converts ∧
      s.processAll files ((remainingSources s.converts inputs answers).map Prod.fst) =
        .ok ((remainingSources s.converts inputs answers).map Prod.snd, t) := by
  induction inputs generalizing s answers with
  | nil =>
    cases h
    exact ⟨rfl, rfl⟩
  | cons input rest ih =>
    obtain ⟨a, later, m, first, second, rfl⟩ := processAll_cons.mp h
    have moves := moves_process first
    obtain ⟨same, kept⟩ := ih second
    rw [moves.converts_eq] at same kept
    refine ⟨same, ?_⟩
    rw [remainingSources, List.zip_cons_cons, List.filter_cons]
    cases moves with
    | stays idle =>
      rw [if_neg (by simp [idle])]
      exact kept
    | converts program done =>
      rw [if_pos done, List.map_cons, List.map_cons]
      exact processAll_cons.mpr ⟨_, _, _, first, kept, rfl⟩

/-- Without the sources that failed or were only printed, a run gives the same answers to all other sources
and ends in the same session. -/
theorem run_remaining (files : Files) (s : Session) (steps : List Step) (answers : List (List Answer))
    (t : Session) (h : s.run files steps = .ok (answers, t)) :
    s.run files ((remaining s.converts steps answers).map Prod.fst) =
      .ok ((remaining s.converts steps answers).map Prod.snd, t) := by
  induction steps generalizing s answers with
  | nil =>
    cases h
    rfl
  | cons next rest ih =>
    obtain ⟨now, later, m, first, second, rfl⟩ := run_cons.mp h
    have rest := ih m later second
    cases next with
    | sources inputs =>
      obtain ⟨same, kept⟩ := processAll_remaining first
      rw [same] at rest
      exact run_cons.mpr ⟨_, _, m, kept, rest, rfl⟩
    | converts value =>
      cases first
      exact run_cons.mpr ⟨_, _, _, rfl, rest, rfl⟩
    | config value =>
      cases first
      exact run_cons.mpr ⟨_, _, _, rfl, rest, rfl⟩
    | opens =>
      cases first
      exact run_cons.mpr ⟨_, _, _, rfl, rest, rfl⟩

/-- A program with a `forEach` statement over an array of this name. -/
def exampleProgram (receiver : String) : Program :=
  ⟨Span.none, [.expression Span.none (.call Span.none
    (.member Span.none (Expr.ident receiver) (Expr.ident "forEach") .dot)
    [.function ⟨Span.none, none, [Expr.ident "x"], ⟨Span.none, []⟩⟩])]⟩

/-- A file without a name, a text that is not well formed and a program that is only printed, among
programs that are converted. -/
def exampleSteps : List Step :=
  [.sources [.tree (exampleProgram "a") none, .file ""], .sources [.text "("], .converts false,
    .sources [.tree (exampleProgram "b") none], .converts true, .sources [.tree (exampleProgram "c") none]]

theorem run_remaining_exampleSteps : ∃ answers t,
    ({} : Session).run .empty exampleSteps = .ok (answers, t) ∧
    ({} : Session).run .empty ((remaining true exampleSteps answers).map Prod.fst) =
      .ok ((remaining true exampleSteps answers).map Prod.snd, t) := by
  have ok : (({} : Session).run .empty exampleSteps).isOk = true := by decide +kernel
  obtain ⟨⟨answers, t⟩, h⟩ := exists_eq_ok ok
  exact ⟨answers, t, h, run_remaining _ _ _ _ _ h⟩

/-! ## Sources that are taken by themselves -/

/-- What a source gives is the program that the session makes of it, and its text. -/
theorem result_finish (s : Session) (program : Program) (file : Option String) (log : List LogRecord) :
    (fun r => r.1.result) <$> s.finish program file log =
      (fun _ => .ok ⟨file, (s.convert program).1, (s.convert program).1.render⟩) <$>
        Printer.new.print (s.convert program).1.render := by
  unfold finish
  obtain ⟨program, s, conversion⟩ := s.convert program
  dsimp only
  cases Printer.new.print program.render <;> rfl

/-- The sessions make the same of every program. -/
def MakeSame (s t : Session) : Prop := ∀ program, (s.convert program).1 = (t.convert program).1

theorem MakeSame.result_finish (h : MakeSame s t) (program : Program) (file : Option String)
    (log : List LogRecord) :
    (fun r => r.1.result) <$> s.finish program file log =
      (fun r => r.1.result) <$> t.finish program file log := by
  rw [Session.result_finish, Session.result_finish, h program]

theorem MakeSame.result_finishReading (h : MakeSame s t) (reading? : Option Reading) (file : Option String)
    (log : List LogRecord) :
    (fun r => r.1.result) <$> s.finishReading reading? file log =
      (fun r => r.1.result) <$> t.finishReading reading? file log := by
  unfold finishReading
  cases reading? with
  | none => rfl
  | some r =>
    by_cases complete : r.isComplete = true
    · simp only [complete, if_true]
      exact h.result_finish _ _ _
    · simp only [complete]
      rfl

/-- Sessions that make the same of every program give the same for every source. -/
theorem MakeSame.result_process (h : MakeSame s t) (files : Files) (input : Input) :
    (fun r => r.1.result) <$> s.process files input = (fun r => r.1.result) <$> t.process files input := by
  cases input with
  | text source => exact h.result_finishReading _ _ _
  | tree program file => exact h.result_finish _ _ _
  | file path =>
    simp only [process]
    cases files.read path with
    | error error => rfl
    | ok content => exact h.result_finishReading _ _ _

/-- The session works with this configuration, and its converter keeps no names of a source. -/
structure Forgets (config : Config) (s : Session) : Prop where
  config : s.active.config = config
  converter : s.active.Forgets

theorem forgets_new {config : Config} (scope : config.scope = .perFile) (converts : Bool) :
    Forgets config { config, converts } :=
  ⟨rfl, Converter.forgets_new scope⟩

theorem Moves.forgets {config : Config} {a : Answer} (h : Moves s a t) (forgets : Forgets config s) :
    Forgets config t := by
  cases h with
  | stays => exact forgets
  | converts program => exact ⟨forgets.config, forgets.converter.convert program⟩

theorem Forgets.processAll {config : Config} {inputs : List Input} {answers : List Answer}
    (forgets : Forgets config s) (h : s.processAll files inputs = .ok (answers, t)) : Forgets config t := by
  induction inputs generalizing s answers with
  | nil =>
    cases h
    exact forgets
  | cons input rest ih =>
    obtain ⟨a, later, m, first, second, -⟩ := processAll_cons.mp h
    exact ih ((moves_process first).forgets forgets) second

/-- Only another configuration could change what a session keeps. -/
theorem Forgets.step {config : Config} {next : Step} {answers : List Answer}
    (forgets : Forgets config s) (other : ∀ value, next ≠ .config value)
    (h : s.step files next = .ok (answers, t)) : Forgets config t := by
  cases next with
  | sources inputs => exact forgets.processAll h
  | converts value =>
    cases h
    exact ⟨forgets.config, forgets.converter⟩
  | config value => exact absurd rfl (other value)
  | opens =>
    cases h
    exact ⟨forgets.config, forgets.converter⟩

theorem Forgets.run {config : Config} {steps : List Step} {answers : List (List Answer)}
    (forgets : Forgets config s) (other : ∀ value, .config value ∉ steps)
    (h : s.run files steps = .ok (answers, t)) : Forgets config t := by
  induction steps generalizing s answers with
  | nil =>
    cases h
    exact forgets
  | cons next rest ih =>
    obtain ⟨now, later, m, first, second, -⟩ := run_cons.mp h
    refine ih (forgets.step (fun value e => ?_) first) (fun value mem => ?_) second
    · exact other value (e ▸ List.mem_cons_self)
    · exact other value (List.mem_cons_of_mem next mem)

/-- A session that forgets makes of every program what a new one makes of it. -/
theorem Forgets.makeSame {config : Config} (forgets : Forgets config s) :
    MakeSame s { config, converts := s.converts } := by
  intro program
  cases on : s.converts with
  | false => rw [convert_off on, convert_off rfl]
  | true =>
    rw [convert_on on, convert_on rfl]
    show (s.active.convert program).1 = ((Converter.new config).convert program).1
    rw [Converter.convert_perFile forgets.converter, forgets.config]

/-- If numbers are used again in each source, every source is taken by itself: whatever a session took
before, it gives for a source the program, the text and the reports, or the failure, that a new session gives.
-/
theorem perFile_forgets_history (config : Config) (scope : config.scope = .perFile) (converts : Bool)
    (files : Files) (history : List Step) (other : ∀ value, .config value ∉ history)
    (answers : List (List Answer)) (s : Session)
    (h : ({ config, converts } : Session).run files history = .ok (answers, s)) (files' : Files)
    (input : Input) :
    (fun r => r.1.result) <$> s.process files' input =
      (fun r => r.1.result) <$> ({ config, converts := s.converts } : Session).process files' input := by
  have forgets : Forgets config s := (forgets_new scope converts).run other h
  exact forgets.makeSame.result_process files' input

/-- The configuration that is usual, but for the numbers. -/
def exampleConfig : Config := { scope := .perFile }

theorem perFile_forgets_history_exampleSteps : ∃ answers s,
    ({ config := exampleConfig } : Session).run .empty exampleSteps = .ok (answers, s) ∧
    (fun r => r.1.result) <$> s.process .empty (.tree (exampleProgram "$i1") none) =
      (fun r => r.1.result) <$> ({ config := exampleConfig, converts := s.converts } : Session).process .empty
        (.tree (exampleProgram "$i1") none) := by
  have ok : (({ config := exampleConfig } : Session).run .empty exampleSteps).isOk = true := by decide +kernel
  obtain ⟨⟨answers, s⟩, h⟩ := exists_eq_ok ok
  exact ⟨answers, s, h, perFile_forgets_history exampleConfig rfl true .empty exampleSteps
    (by simp [exampleSteps]) _ _ h _ _⟩

end Session

end IndexedLoop
