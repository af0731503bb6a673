import IndexedLoop.Proofs.Sessions

/-!
# The configuration of a session is fixed at its first use

A session makes its converter when it is first needed: when the converter is asked for, or when a source that
can be read is converted. The converter keeps the configuration of that moment (`Session.frozenConfig`) for the
rest of the run (`Session.config_process`). So the configurations that are set later change no answer
(`Session.answers_after`), and of those that are set before only the last one counts
(`Session.outcome_before`).
-/

namespace IndexedLoop

/-- The program of a reading without errors. -/
def Reading.whole? (reading? : Option Reading) : Option Program :=
  (reading?.filter Reading.isComplete).map Reading.program

/-- The program that a source holds, if all of it can be read. -/
def Input.program? (files : Files) : Input → Option Program
  | .text source => Reading.whole? (Reading.ofText? "" source)
  | .tree program _ => some program
  | .file path =>
    match files.read path with
    | .error _ => none
    | .ok bytes => Reading.whole? (Reading.ofBytes? path bytes)

/-- A result that is mapped comes from a result. -/
theorem map_eq_ok_iff {ε α β : Type} {f : α → β} {x : Except ε α} {b : β} :
    f <$> x = .ok b ↔ ∃ a, x = .ok a ∧ f a = b := by
  cases x <;> simp [Functor.map, Except.map]

namespace Session

variable {files : Files} {s t : Session}

/-! ## When the converter is made -/

/-- The step needs the converter, in a session that converts or only prints. -/
def Step.needsConverter (files : Files) (converts : Bool) : Step → Bool
  | .sources inputs => converts && inputs.any fun input => (input.program? files).isSome
  | .opens => true
  | .converts _ | .config _ => false

/-- Whether sources are converted behind a step. -/
def Step.convertsAfter (converts : Bool) : Step → Bool
  | .converts value => value
  | _ => converts

/-- The configuration behind a step. -/
def Step.configAfter (config : Config) : Step → Config
  | .config value => value
  | _ => config

/-- The step leaves the configuration as it is. -/
def Step.keepsConfig : Step → Bool
  | .config _ => false
  | _ => true

/-- The configuration at the first step of a run that needs the converter. -/
def frozenConfig (files : Files) (converts : Bool) (config : Config) : List Step → Option Config
  | [] => none
  | next :: rest =>
    if next.needsConverter files converts then some config
    else frozenConfig files (next.convertsAfter converts) (next.configAfter config) rest

/-- The runs differ at most in the configurations that they set. -/
def SameButConfig (steps steps' : List Step) : Prop :=
  steps.filter Step.keepsConfig = steps'.filter Step.keepsConfig

/-- The answers of a run in one list, and the session behind it. -/
def outcome (files : Files) (s : Session) (steps : List Step) : Except ReversedSpan (List Answer × Session) :=
  (fun r => (r.1.flatten, r.2)) <$> s.run files steps

/-- The answers of a run in one list. -/
def answers (files : Files) (s : Session) (steps : List Step) : Except ReversedSpan (List Answer) :=
  Prod.fst <$> s.outcome files steps

/-! ## One source -/

theorem finishReading_of_whole {reading? : Option Reading} {program : Program}
    (h : Reading.whole? reading? = some program) (file : Option String) (log : List LogRecord) :
    ∃ log', ∀ s : Session, s.finishReading reading? file log = s.finish program file log' := by
  simp only [Reading.whole?, Option.map_eq_some_iff, Option.filter_eq_some_iff] at h
  obtain ⟨r, ⟨rfl, complete⟩, rfl⟩ := h
  exact ⟨log ++ r.log, fun s => by simp only [finishReading, complete, if_true]⟩

theorem finishReading_of_not_whole {reading? : Option Reading} (h : Reading.whole? reading? = none)
    (file : Option String) (log : List LogRecord) :
    ∃ a, ∀ s : Session, s.finishReading reading? file log = .ok (a, s) := by
  cases reading? with
  | none => exact ⟨_, fun s => rfl⟩
  | some r =>
    have incomplete : r.isComplete = false := by
      cases complete : r.isComplete with
      | false => rfl
      | true => simp [Reading.whole?, Option.filter, complete] at h
    exact ⟨_, fun s => by simp only [finishReading, incomplete]; rfl⟩

/-- A source that can be read is finished with its program, in every session. -/
theorem process_of_program {input : Input} {program : Program} (h : input.program? files = some program) :
    ∃ file log, ∀ s : Session, s.process files input = s.finish program file log := by
  cases input with
  | text source => exact ⟨_, finishReading_of_whole h _ _⟩
  | tree tree file =>
    cases h
    exact ⟨file, [], fun s => rfl⟩
  | file path =>
    simp only [Input.program?] at h
    simp only [process]
    cases bytes : files.read path with
    | error error => simp [bytes] at h
    | ok content =>
      simp only [bytes] at h
      exact ⟨_, finishReading_of_whole h _ _⟩

/-- A source that cannot be read gets the same answer in every session, which stays as it is. -/
theorem process_of_no_program {input : Input} (h : input.program? files = none) :
    ∃ a, ∀ s : Session, s.process files input = .ok (a, s) := by
  cases input with
  | text source => exact finishReading_of_not_whole h _ _
  | tree tree file => cases h
  | file path =>
    simp only [Input.program?] at h
    simp only [process]
    cases bytes : files.read path with
    | error error => exact ⟨_, fun s => rfl⟩
    | ok content =>
      simp only [bytes] at h
      exact finishReading_of_not_whole h _ _

/-- The configuration that the session cannot change any more. -/
def fixed (s : Session) : Option Config := s.converter.map Converter.config

theorem config_active (s : Session) : s.active.config = s.fixed.getD s.config := by
  unfold active fixed
  cases s.converter <;> rfl

/-- What a source does to the choices of a session. -/
structure Keeps (needed : Bool) (s t : Session) : Prop where
  fixed : t.fixed = s.fixed.or (if needed then some s.config else none)
  config : t.config = s.config
  converts : t.converts = s.converts

theorem keeps_refl (s : Session) : Keeps false s s := ⟨by simp, rfl, rfl⟩

theorem Keeps.trans {u : Session} {p q : Bool} (hst : Keeps p s t) (htu : Keeps q t u) :
    Keeps (p || q) s u := by
  refine ⟨?_, htu.config.trans hst.config, htu.converts.trans hst.converts⟩
  rw [htu.fixed, hst.fixed, hst.config]
  cases s.fixed <;> cases p <;> cases q <;> rfl

theorem keeps_process {input : Input} {a : Answer} (h : s.process files input = .ok (a, t)) :
    Keeps (s.converts && (input.program? files).isSome) s t := by
  cases read : input.program? files with
  | none =>
    obtain ⟨a', all⟩ := process_of_no_program read
    rw [all] at h
    cases h
    simpa using keeps_refl _
  | some program =>
    obtain ⟨file, log, all⟩ := process_of_program read
    rw [all] at h
    obtain ⟨-, ⟨off, rfl⟩ | ⟨on, rfl⟩⟩ := finish_cases h
    · simpa [off] using keeps_refl _
    · refine ⟨?_, rfl, rfl⟩
      show some s.active.config = _
      rw [config_active, on]
      cases s.fixed <;> rfl

theorem keeps_processAll {inputs : List Input} {as : List Answer}
    (h : s.processAll files inputs = .ok (as, t)) :
    Keeps (s.converts && inputs.any fun input => (input.program? files).isSome) s t := by
  induction inputs generalizing s as with
  | nil =>
    cases h
    simpa using keeps_refl _
  | cons input rest ih =>
    obtain ⟨a, later, m, first, second, -⟩ := processAll_cons.mp h
    have head := keeps_process first
    have tail := ih second
    rw [head.converts] at tail
    rw [List.any_cons, Bool.and_or_distrib_left]
    exact head.trans tail

/-! ## The configuration in a run -/

/-- What a step does to the choices of a session. -/
theorem step_choices {next : Step} {as : List Answer} (h : s.step files next = .ok (as, t)) :
    t.fixed = s.fixed.or (if next.needsConverter files s.converts then some s.config else none) ∧
      t.config = next.configAfter s.config ∧ t.converts = next.convertsAfter s.converts := by
  cases next with
  | sources inputs =>
    have keeps := keeps_processAll h
    exact ⟨keeps.fixed, keeps.config, keeps.converts⟩
  | converts value =>
    cases h
    exact ⟨by simp [fixed, Step.needsConverter], rfl, rfl⟩
  | config value =>
    cases h
    exact ⟨by simp [fixed, Step.needsConverter], rfl, rfl⟩
  | opens =>
    cases h
    refine ⟨?_, rfl, rfl⟩
    show some s.active.config = _
    rw [config_active]
    cases s.fixed <;> rfl

/-- A session has the configuration that its run has frozen. -/
theorem fixed_run {steps : List Step} {as : List (List Answer)} (h : s.run files steps = .ok (as, t)) :
    t.fixed = s.fixed.or (frozenConfig files s.converts s.config steps) := by
  induction steps generalizing s as with
  | nil =>
    cases h
    simp [frozenConfig]
  | cons next rest ih =>
    obtain ⟨now, later, m, first, second, -⟩ := run_cons.mp h
    obtain ⟨fixed, config, converts⟩ := step_choices first
    rw [ih second, fixed, config, converts, frozenConfig]
    cases s.fixed <;> cases next.needsConverter files s.converts <;> rfl

theorem choices_run {steps : List Step} {as : List (List Answer)} (h : s.run files steps = .ok (as, t)) :
    t.config = steps.foldl Step.configAfter s.config ∧
      t.converts = steps.foldl Step.convertsAfter s.converts := by
  induction steps generalizing s as with
  | nil =>
    cases h
    exact ⟨rfl, rfl⟩
  | cons next rest ih =>
    obtain ⟨now, later, m, first, second, -⟩ := run_cons.mp h
    obtain ⟨-, config, converts⟩ := step_choices first
    rw [List.foldl_cons, List.foldl_cons, ← config, ← converts]
    exact ih second

theorem frozenConfig_append (converts : Bool) (config : Config) (before after : List Step) :
    frozenConfig files converts config (before ++ after) =
      (frozenConfig files converts config before).or
        (frozenConfig files (before.foldl Step.convertsAfter converts)
          (before.foldl Step.configAfter config) after) := by
  induction before generalizing converts config with
  | nil => rfl
  | cons next rest ih =>
    simp only [List.cons_append, frozenConfig, List.foldl_cons]
    split
    · rfl
    · exact ih _ _

/-- Whether the converter is needed does not depend on the configurations. -/
theorem isSome_frozenConfig (converts : Bool) (config config' : Config) (steps : List Step) :
    (frozenConfig files converts config steps).isSome =
      (frozenConfig files converts config' (steps.filter Step.keepsConfig)).isSome := by
  induction steps generalizing converts config config' with
  | nil => rfl
  | cons next rest ih =>
    cases next with
    | config value => exact ih _ _ _
    | sources inputs | converts value | opens =>
      rw [List.filter_cons_of_pos rfl, frozenConfig, frozenConfig]
      split
      · rfl
      · exact ih _ _ _

/-- A source that is converted in a run is converted with the configuration that the run freezes. -/
theorem config_process {before after : List Step} {inputs more : List Input} {input : Input}
    {program : Program} {as : List (List Answer)} {done : List Answer} {m u : Session}
    (fresh : s.converter = none) (run : s.run files before = .ok (as, m))
    (batch : m.processAll files inputs = .ok (done, u)) (on : u.converts = true)
    (read : input.program? files = some program) :
    frozenConfig files s.converts s.config (before ++ .sources (inputs ++ input :: more) :: after) =
      some u.active.config := by
  have keeps := keeps_processAll batch
  obtain ⟨config, converts⟩ := choices_run run
  have fixed : m.fixed = frozenConfig files s.converts s.config before := by
    rw [fixed_run run, Session.fixed, fresh]
    rfl
  have needed : (Step.sources (inputs ++ input :: more)).needsConverter files m.converts = true := by
    rw [← keeps.converts, on]
    simp [Step.needsConverter, read]
  rw [frozenConfig_append, ← fixed, ← config, ← converts, frozenConfig, if_pos needed, config_active,
    keeps.fixed, keeps.config]
  cases m.fixed <;> cases (m.converts && inputs.any fun input => (input.program? files).isSome) <;> rfl

/-- The program of a source that is converted is the one that the converter of the session makes. -/
theorem converted_process {input : Input} {program : Program} {a : Answer} (on : s.converts = true)
    (read : input.program? files = some program) (h : s.process files input = .ok (a, t)) :
    ∃ output, a.result = .ok output ∧ output.program = (s.active.convert program).1 := by
  obtain ⟨file, log, all⟩ := process_of_program read
  rw [all, finish, convert_on on] at h
  obtain ⟨_, -, e⟩ := bind_eq_ok_iff.mp h
  cases e
  exact ⟨_, rfl, rfl⟩

/-! ## Runs with other configurations -/

/-- Another configuration changes nothing where the converter is there or not needed. -/
theorem finish_withConfig (config : Config) (made : s.converts = true → s.converter.isSome = true)
    (program : Program) (file : Option String) (log : List LogRecord) :
    ({ s with config } : Session).finish program file log =
      (fun r => (r.1, { r.2 with config })) <$> s.finish program file log := by
  obtain ⟨converts, current, converter⟩ := s
  cases converts with
  | false =>
    rw [finish, finish, convert_off rfl, convert_off rfl]
    dsimp only
    cases Printer.new.print program.render <;> rfl
  | true =>
    obtain ⟨c, rfl⟩ := Option.isSome_iff_exists.mp (made rfl)
    rw [finish, finish, convert_on rfl, convert_on rfl]
    dsimp only [active, Option.getD_some]
    cases Printer.new.print (c.convert program).1.render <;> rfl

theorem process_withConfig (config : Config) {input : Input}
    (made : (s.converts && (input.program? files).isSome) = true → s.converter.isSome = true) :
    ({ s with config } : Session).process files input =
      (fun r => (r.1, { r.2 with config })) <$> s.process files input := by
  cases read : input.program? files with
  | none =>
    obtain ⟨a, all⟩ := process_of_no_program read
    rw [all, all]
    rfl
  | some program =>
    obtain ⟨file, log, all⟩ := process_of_program read
    rw [all, all]
    exact finish_withConfig config (fun on => made (by simp [on, read])) program file log

theorem isSome_converter (s : Session) : s.converter.isSome = s.fixed.isSome := by
  simp [fixed]

theorem Keeps.isSome_converter {needed : Bool} (h : Keeps needed s t) (made : s.converter.isSome = true) :
    t.converter.isSome = true := by
  rw [Session.isSome_converter] at made ⊢
  simp [h.fixed, made]

theorem processAll_withConfig (config : Config) {inputs : List Input}
    (made : (s.converts && inputs.any fun input => (input.program? files).isSome) = true →
      s.converter.isSome = true) :
    ({ s with config } : Session).processAll files inputs =
      (fun r => (r.1, { r.2 with config })) <$> s.processAll files inputs := by
  induction inputs generalizing s with
  | nil => rfl
  | cons input rest ih =>
    rw [List.any_cons, Bool.and_or_distrib_left, Bool.or_eq_true] at made
    rw [processAll, processAll, process_withConfig config fun first => made (.inl first)]
    cases first : s.process files input with
    | error e => rfl
    | ok r =>
      have keeps := keeps_process first
      have later := ih (s := r.2) fun needed => by
        rw [keeps.converts] at needed
        exact keeps.isSome_converter (made (.inr needed))
      simp only [bind, Except.bind, Functor.map, Except.map, later]
      cases r.2.processAll files rest <;> rfl

theorem step_withConfig (config : Config) {next : Step} (keeps : next.keepsConfig = true)
    (made : next.needsConverter files s.converts = true → s.converter.isSome = true) :
    ({ s with config } : Session).step files next =
      (fun r => (r.1, { r.2 with config })) <$> s.step files next := by
  cases next with
  | sources inputs => exact processAll_withConfig config made
  | converts value => rfl
  | config value => cases keeps
  | opens =>
    obtain ⟨c, made⟩ := Option.isSome_iff_exists.mp (made rfl)
    simp [step, opened, active, made, Functor.map, Except.map]

theorem outcome_cons (files : Files) (s : Session) (next : Step) (rest : List Step) :
    s.outcome files (next :: rest) = (do
      let r ← s.step files next
      (fun l => (r.1 ++ l.1, l.2)) <$> r.2.outcome files rest) := by
  unfold outcome
  rw [run]
  cases s.step files next with
  | error e => rfl
  | ok r =>
    simp only [bind, Except.bind, Functor.map, Except.map]
    cases r.2.run files rest <;> rfl

theorem outcome_append (files : Files) (s : Session) (before after : List Step) :
    s.outcome files (before ++ after) = (do
      let r ← s.outcome files before
      (fun l => (r.1 ++ l.1, l.2)) <$> r.2.outcome files after) := by
  induction before generalizing s with
  | nil =>
    show _ = (fun l => ([] ++ l.1, l.2)) <$> s.outcome files after
    simp
  | cons next rest ih =>
    rw [List.cons_append, outcome_cons, outcome_cons]
    cases s.step files next with
    | error e => rfl
    | ok r =>
      simp only [bind, Except.bind, Functor.map, Except.map, ih]
      cases r.2.outcome files rest with
      | error e => rfl
      | ok m =>
        dsimp only
        cases m.2.outcome files after <;> simp

/-- Where the converter is there or not needed, a run gives what it gives without the configurations that it
sets. The induction is on the steps, and each either drops out or is done in both runs. -/
theorem outcome_filter {steps : List Step}
    (made : (frozenConfig files s.converts s.config steps).isSome = true → s.converter.isSome = true)
    (config : Config) :
    ({ s with config } : Session).outcome files (steps.filter Step.keepsConfig) =
      (fun r => (r.1, { r.2 with config })) <$> s.outcome files steps := by
  induction steps generalizing s with
  | nil => rfl
  | cons next rest ih =>
    cases keeps : next.keepsConfig with
    | false =>
      obtain ⟨value, rfl⟩ : ∃ value, next = .config value := by
        cases next <;> simp [Step.keepsConfig] at keeps ⊢
      rw [List.filter_cons_of_neg (by simp [keeps]), outcome_cons]
      have later := ih (s := { s with config := value }) made
      simp only [step, bind, Except.bind, List.nil_append]
      rw [later]
      cases ({ s with config := value } : Session).outcome files rest <;> rfl
    | true =>
      rw [frozenConfig] at made
      have first := step_withConfig config keeps fun needed : next.needsConverter files s.converts = true =>
        made (by simp [needed])
      rw [List.filter_cons_of_pos keeps, outcome_cons, outcome_cons, first]
      cases now : s.step files next with
      | error e => rfl
      | ok r =>
        obtain ⟨fixed, setting, converts⟩ := step_choices now
        have later := ih (s := r.2) fun some => by
          rw [isSome_converter, fixed]
          rw [setting, converts] at some
          rw [isSome_converter] at made
          cases needed : next.needsConverter files s.converts with
          | true => simp
          | false => simp [made (by simpa [needed] using some)]
        simp only [bind, Except.bind, Functor.map, Except.map, later]
        cases r.2.outcome files rest <;> rfl

/-- A run that does not need the converter ends in its own last configuration. -/
theorem outcome_eq_filter {steps : List Step} (unused : frozenConfig files s.converts s.config steps = none) :
    s.outcome files steps =
      ({ s with config := steps.foldl Step.configAfter s.config } : Session).outcome files
        (steps.filter Step.keepsConfig) := by
  rw [outcome_filter (by simp [unused])]
  cases all : s.outcome files steps with
  | error e => rfl
  | ok r =>
    obtain ⟨⟨as, t⟩, run, rfl⟩ := map_eq_ok_iff.mp all
    rw [← (choices_run run).1]
    rfl

/-- If the converter is there, a run gives the answers that it gives without the configurations. -/
theorem answers_filter (there : s.converter.isSome = true) (steps : List Step) :
    s.answers files steps = s.answers files (steps.filter Step.keepsConfig) := by
  have filtered : s.outcome files (steps.filter Step.keepsConfig) = _ :=
    outcome_filter (fun _ => there) s.config
  rw [answers, answers, filtered]
  cases s.outcome files steps <;> rfl

theorem answers_append (files : Files) (s : Session) (before after : List Step) :
    s.answers files (before ++ after) = (do
      let r ← s.outcome files before
      (fun later => r.1 ++ later) <$> r.2.answers files after) := by
  rw [answers, outcome_append]
  cases s.outcome files before with
  | error e => rfl
  | ok r =>
    unfold answers
    simp only [bind, Except.bind]
    cases r.2.outcome files after <;> rfl

/-- Configurations that are set when the converter is there change no answer. -/
theorem answers_after {before after after' : List Step}
    (made : (frozenConfig files s.converts s.config before).isSome = true)
    (same : SameButConfig after after') :
    s.answers files (before ++ after) = s.answers files (before ++ after') := by
  rw [answers_append, answers_append]
  cases first : s.outcome files before with
  | error e => rfl
  | ok r =>
    obtain ⟨⟨as, m⟩, run, rfl⟩ := map_eq_ok_iff.mp first
    have there : m.converter.isSome = true := by
      rw [isSome_converter, fixed_run run]
      simp [made]
    simp only [bind, Except.bind]
    rw [answers_filter there after, answers_filter there after', same]

/-- Of the configurations that are set before the converter is needed, only the last one counts. -/
theorem outcome_before {before before' : List Step}
    (unused : frozenConfig files s.converts s.config before = none)
    (same : SameButConfig before before')
    (last : before.foldl Step.configAfter s.config = before'.foldl Step.configAfter s.config) :
    s.outcome files before = s.outcome files before' := by
  have unused' : frozenConfig files s.converts s.config before' = none := by
    rw [← Option.not_isSome_iff_eq_none, isSome_frozenConfig _ _ s.config] at unused ⊢
    rwa [← same]
  rw [outcome_eq_filter unused, outcome_eq_filter unused', same, last]

/-- The configuration is frozen at its first use. Every source that is converted in a run is converted with the
configuration at the first step that needed the converter. Configurations that are set later change no answer,
and of those that were set before only the last one counts. -/
theorem config_frozen_at_first_use (files : Files) (s : Session) (fresh : s.converter = none) :
    (∀ before inputs input more after program as m done u a t, s.run files before = .ok (as, m) →
      m.processAll files inputs = .ok (done, u) → u.process files input = .ok (a, t) →
      u.converts = true → input.program? files = some program →
      frozenConfig files s.converts s.config (before ++ .sources (inputs ++ input :: more) :: after) =
          some u.active.config ∧
        ∃ output, a.result = .ok output ∧ output.program = (u.active.convert program).1) ∧
    (∀ before after after', (frozenConfig files s.converts s.config before).isSome = true →
      SameButConfig after after' →
      s.answers files (before ++ after) = s.answers files (before ++ after')) ∧
    (∀ before before' after, frozenConfig files s.converts s.config before = none →
      SameButConfig before before' →
      before.foldl Step.configAfter s.config = before'.foldl Step.configAfter s.config →
      s.answers files (before ++ after) = s.answers files (before' ++ after)) := by
  refine ⟨?_, fun _ _ _ => answers_after, fun before before' after unused same last => ?_⟩
  · intro before inputs input more after program as m done u a t run batch taken on read
    exact ⟨config_process fresh run batch on read, converted_process on read taken⟩
  · rw [answers_append, answers_append, outcome_before unused same last]

/-- A configuration whose loop indices have this stem. -/
def exampleStem (indexStem : String) : Config := { indexStem }

/-- Steps in which nothing is converted: a program is only printed and a file is missing. -/
def exampleUnused : List Step :=
  [.config (exampleStem "j"), .converts false, .sources [.tree (exampleProgram "a") none], .converts true,
    .sources [.file ""], .config (exampleStem "k")]

/-- The same steps, with one configuration at the start. -/
def exampleUnused' : List Step :=
  [.config (exampleStem "k"), .converts false, .sources [.tree (exampleProgram "a") none], .converts true,
    .sources [.file ""]]

/-- A source that is converted. -/
def exampleSource : Input := .tree (exampleProgram "b") none

/-- The source behind another configuration. -/
def exampleLater : List Step := [.config (exampleStem "l"), .sources [exampleSource]]

theorem config_frozen_at_first_use_exampleUnused :
    (∃ as m a t, ({} : Session).run .empty exampleUnused = .ok (as, m) ∧
      m.process .empty exampleSource = .ok (a, t) ∧ m.active.config = exampleStem "k") ∧
    ({} : Session).answers .empty ([.opens] ++ exampleLater) =
      ({} : Session).answers .empty ([.opens] ++ [.sources [exampleSource]]) ∧
    ({} : Session).answers .empty (exampleUnused ++ exampleLater) =
      ({} : Session).answers .empty (exampleUnused' ++ exampleLater) := by
  obtain ⟨first, later, earlier⟩ := config_frozen_at_first_use .empty {} rfl
  have unused : frozenConfig .empty true {} exampleUnused = none := rfl
  have same : SameButConfig exampleUnused exampleUnused' := rfl
  have after : SameButConfig exampleLater [.sources [exampleSource]] := rfl
  refine ⟨?_, later [.opens] _ _ rfl after, earlier _ _ _ unused same rfl⟩
  have ok : (({} : Session).run .empty exampleUnused >>= fun r =>
      r.2.process .empty exampleSource).isOk = true := by decide +kernel
  obtain ⟨⟨a, t⟩, both⟩ := exists_eq_ok ok
  obtain ⟨⟨as, m⟩, run, taken⟩ := bind_eq_ok_iff.mp both
  have on : m.converts = true := (choices_run run).2
  have used := (first exampleUnused [] exampleSource [] [] (exampleProgram "b") as m [] m a t run rfl taken on
    rfl).1
  exact ⟨as, m, a, t, run, taken, (Option.some.inj used).symm⟩

end Session

end IndexedLoop
