import IndexedLoop.Proofs.Skeleton

/-!
# Programs without the idiom

A conversion changes a program if, and only if, one of its statements is the idiom, at whatever depth it stands.
A tree without the idiom goes through the walk as it is, and so does the state (`walkStmts_of_quiet`). The other
direction needs no look at the walk: what a conversion leaves is without the idiom (`quiet_walkStmts`), so a
program that comes back unchanged was without it, and a conversion that counts nothing gives the program back
(`walkStmts_of_conversions_eq_zero`). What a conversion leaves is therefore not changed by a second one.
-/

namespace IndexedLoop

open Conversion

variable {σ : Type}

/-! ## Trees without the idiom -/

/-- Among the events is a statement that holds a call of the idiom. -/
def HoldsForEach (events : List Event) : Prop :=
  ∃ span callSpan callee arguments,
    .stmt (.expression span (.call callSpan callee arguments)) ∈ events ∧
      (ForEach.ofCall? callee arguments).isSome

theorem quiet_iff_not_holdsForEach {events : List Event} : Quiet events ↔ ¬ HoldsForEach events := by
  constructor
  · rintro quiet ⟨span, callSpan, callee, arguments, met, found⟩
    have none : ForEach.ofCall? callee arguments = none := quiet _ met
    rw [none] at found
    cases found
  · intro without s met
    by_contra found
    obtain ⟨each, found⟩ := Option.ne_none_iff_exists'.mp found
    cases ForEach.written_of_ofStmt? found with
    | mk => exact without ⟨_, _, _, _, met, Option.isSome_iff_exists.mpr ⟨_, found⟩⟩

theorem Stmt.exists_events_eq (s : Stmt) : ∃ rest, s.events = .stmt s :: rest := by
  rcases s with _ | ⟨_, _, _, _⟩ | _ | _ | ⟨_, _, _, _, _⟩ | ⟨_, _, _⟩ | ⟨_, _, _, _ | _⟩ | _ | _ | _ | _ | _ | _
  all_goals exact ⟨_, by rw [Stmt.events]⟩

theorem Stmt.mem_events (s : Stmt) : .stmt s ∈ s.events := by
  obtain ⟨rest, events⟩ := s.exists_events_eq
  rw [events]
  exact List.mem_cons_self

theorem quiet_function (f : Function) :
    Quiet (Expr.function f).events ↔ Quiet (eventsOfExprs f.params) ∧ Quiet f.body.events := by
  cases f
  simp [Expr.events, quiet_other, quiet_identifiers]

theorem quiet_block (b : Block) : Quiet b.events ↔ Quiet (eventsOfStmts b.body) := by
  cases b
  simp [Block.events, quiet_other]

theorem quiet_declaration (d : Declaration) : Quiet d.events ↔ Quiet (eventsOfDeclarators d.declarators) := by
  cases d
  simp [Declaration.events, quiet_other]

theorem quiet_functionDecl (f : FunctionDecl) :
    Quiet (Stmt.functionDecl f).events ↔ Quiet (eventsOfExprs f.params) ∧ Quiet f.body.events := by
  cases f
  simp [Stmt.events, ForEach.ofStmt?, quiet_other]

theorem quiet_forLoop (l : ForLoop) :
    Quiet (Stmt.forLoop l).events ↔ Quiet (eventsOfForInit l.init) ∧ Quiet (eventsOfOption l.test) ∧
      Quiet (eventsOfOption l.update) ∧ Quiet l.body.events := by
  cases l
  simp [Stmt.events, ForEach.ofStmt?, quiet_other]

theorem quiet_whileLoop (l : WhileLoop) :
    Quiet (Stmt.whileLoop l).events ↔ Quiet l.test.events ∧ Quiet l.body.events := by
  cases l
  simp [Stmt.events, ForEach.ofStmt?, quiet_other]

/-! ## The walk leaves them alone -/

/-- The law that a node without the idiom stays as it is, and the state too. -/
def untouched : Law σ where
  expr e st r := Quiet e.events → r = (e, st)
  exprs es st r := Quiet (eventsOfExprs es) → r = (es, st)
  elements es st r := Quiet (eventsOfElements es) → r = (es, st)
  properties ps st r := Quiet (eventsOfProperties ps) → r = (ps, st)
  function f st r := Quiet (Expr.function f).events → r = (f, st)
  block b st r := Quiet b.events → r = (b, st)
  stmts ss st r := Quiet (eventsOfStmts ss) → r = (ss, st)
  declarators ds st r := Quiet (eventsOfDeclarators ds) → r = (ds, st)
  option e st r := Quiet (eventsOfOption e) → r = (e, st)
  forInit i st r := Quiet (eventsOfForInit i) → r = (i, st)
  branch s st r := Quiet (eventsOfBranch s) → r = (s, st)
  inside s st r := Quiet s.events → r = (s, st)
  stmt s st r := Quiet s.events → r = (s, st)

/-- The only thing asked of the hook is that it leaves a statement alone which is not the idiom. -/
theorem untouched_closed {change : Stmt → σ → Stmt × σ}
    (keeps : ∀ s st, ForEach.ofStmt? s = none → change s st = (s, st)) : untouched.Closed change := by
  constructor
  all_goals simp only [untouched, Expr.events, eventsOfExprs, eventsOfElements, eventsOfProperties, eventsOfStmts,
    eventsOfDeclarators, eventsOfOption, eventsOfForInit, eventsOfBranch, quiet_function, quiet_block,
    quiet_declaration, quiet_functionDecl, quiet_forLoop, quiet_whileLoop, quiet_events_ifElse, quiet_append]
  all_goals intros
  case change s st r h q =>
    rw [keeps s st (q s s.mem_events)] at h
    exact h q
  case this | identifier | literal | unknown | exprs_nil | elements_nil | properties_nil | stmts_nil
      | declarators_nil | option_none | forInit_none | branch_none | brk | cont | empty | unknownStmt =>
    trivial
  -- one part
  case unary h q | sequence h q | update h q | object h q | array h q =>
    obtain rfl := h ((quiet_other (by simp) _).mp q)
    rfl
  case functionExpr h q | elements_hole h q | option_some h q | branch_some h q | forInit_expression h q =>
    obtain rfl := h q
    rfl
  case blockStmt h q | ret h q | throw h q | expression h q =>
    simp only [Stmt.events, quiet_stmt, quiet_block] at q
    obtain rfl := h q.2
    rfl
  case blocks node _ _ h q | forInit_declaration node _ _ h q =>
    obtain rfl := h q
    cases node
    rfl
  case declaration d _ _ h q =>
    rw [Stmt.events, quiet_stmt, quiet_declaration] at q
    obtain rfl := h q.2
    cases d
    rfl
  -- more parts
  case assignment h₁ h₂ q | binary h₁ h₂ q | call h₁ h₂ q | new h₁ h₂ q | member h₁ h₂ q =>
    rw [quiet_other (by simp), quiet_append] at q
    obtain rfl := h₁ q.1
    obtain rfl := h₂ q.2
    rfl
  case conditional h₁ h₂ h₃ q =>
    rw [quiet_other (by simp), quiet_append, quiet_append] at q
    obtain rfl := h₁ q.1.1
    obtain rfl := h₂ q.1.2
    obtain rfl := h₃ q.2
    rfl
  case exprs_cons h₁ h₂ q | elements_cons h₁ h₂ q | stmts_cons h₁ h₂ q =>
    obtain rfl := h₁ q.1
    obtain rfl := h₂ q.2
    rfl
  case declarators_cons h₁ h₂ q =>
    rw [quiet_other (by simp), quiet_other (by simp), quiet_append] at q
    obtain rfl := h₁ q.1
    obtain rfl := h₂ q.2
    rfl
  case properties_cons h₁ h₂ h₃ q =>
    obtain rfl := h₁ q.1.1
    obtain rfl := h₂ q.1.2
    obtain rfl := h₃ q.2
    rfl
  case functions node _ _ _ h₁ h₂ q | functionDecl node _ _ _ h₁ h₂ q | whileLoop node _ _ _ h₁ h₂ q =>
    obtain rfl := h₁ q.1
    obtain rfl := h₂ q.2
    cases node
    rfl
  case ifElse i _ _ _ _ h₁ h₂ h₃ q =>
    obtain rfl := h₁ q.1
    obtain rfl := h₂ q.2.1
    obtain rfl := h₃ q.2.2
    cases i
    rfl
  case forLoop l _ _ _ _ _ h₁ h₂ h₃ h₄ q =>
    obtain rfl := h₁ q.1
    obtain rfl := h₂ q.2.1
    obtain rfl := h₃ q.2.2.1
    obtain rfl := h₄ q.2.2.2
    cases l
    rfl

theorem walkStmts_of_quiet (config : Config) {ss : List Stmt} (st : Conversion) (quiet : Quiet (eventsOfStmts ss)) :
    walkStmts (hooks config) ss st = (ss, st) := by
  have closed : untouched.Closed (hooks config).stmt := untouched_closed fun s st none => by
    simp only [hooks, convertStmt, none]
  exact (closed.holds (Hooks.onStatements_idle _ _)).stmts ss st quiet

/-- Statements come back unchanged if nothing in them is to be converted. -/
theorem walkStmts_of_conversions_eq_zero (names : Naming) {ss : List Stmt} (none : conversionsOfStmts ss = 0) :
    (walkStmts names.hooks ss 0).1 = ss := by
  have closed : (inOrder names fun _ => true).Closed names.hooks.stmt := inOrder_closed
  exact ((closed.holds (Hooks.onStatements_idle _ _)).stmts ss 0).same none

namespace Converter

/-- The converter gives the program back, draws no name for it and counts nothing. -/
structure Keeps (c : Converter) (program : Program) : Prop where
  result : (c.convert program).1 = program
  drawn : c.drawn (.program program) = []
  names : (c.convert program).2.1.names = c.namesFor program
  converted : (c.convert program).2.1.converted = c.converted

variable {c : Converter} {program : Program}

/-- A request without the idiom leaves the state as it is with which it is started. -/
theorem walk_request_of_quiet (c : Converter) (request : Request) (quiet : Quiet (eventsOfStmts request.body)) :
    walkStmts (hooks c.config) request.body (c.start request) = (request.body, c.start request) :=
  walkStmts_of_quiet c.config _ quiet

/-- No name is drawn if no statement is counted. -/
theorem drawn_eq_nil_iff (c : Converter) (request : Request) :
    c.drawn request = [] ↔ (c.serve request).converted = c.converted := by
  have count := (c.drawn_request request).1
  rw [List.eq_nil_iff_length_eq_zero]
  omega

theorem keeps_of_quiet (c : Converter) (quiet : Quiet (eventsOfStmts program.body)) : c.Keeps program := by
  have walk := c.walk_request_of_quiet (.program program) quiet
  have state : c.serve (.program program) = c.after (c.start (.program program)) := by
    rw [serve_eq, walk]
  have converted : (c.serve (.program program)).converted = c.converted := by
    rw [state]
    exact c.converted_start (.program program)
  refine ⟨?_, (c.drawn_eq_nil_iff _).mpr converted, congrArg Converter.names state, converted⟩
  exact congrArg (fun r : List Stmt × Conversion => Program.mk program.span r.1) walk

theorem quiet_of_convert_eq (same : (c.convert program).1 = program) : Quiet (eventsOfStmts program.body) := by
  have quiet := quiet_walkStmts c.config program.body (c.start (.program program))
  have body : (walkStmts (hooks c.config) program.body (c.start (.program program))).1 = program.body :=
    congrArg Program.body same
  rwa [body] at quiet

/-- A conversion is not undone: if nothing is counted, then nothing was changed. -/
theorem quiet_of_converted_eq (same : (c.convert program).2.1.converted = c.converted) :
    Quiet (eventsOfStmts program.body) := by
  have none : conversionsOfStmts program.body = 0 := by
    have count := c.converted_convert program
    rw [Program.conversions] at count
    omega
  refine quiet_of_convert_eq (c := c) ?_
  rw [convert_fst, walkStmts_of_conversions_eq_zero _ none]

theorem holdsForEach_program : HoldsForEach program.events ↔ HoldsForEach (eventsOfStmts program.body) := by
  simp only [HoldsForEach, Program.events, List.mem_cons, reduceCtorEq, false_or]

/-- A conversion changes exactly the programs that hold the idiom. A program comes back as it is, with no name
drawn and nothing counted, if and only if no statement of it, at any depth, holds a call of the idiom, and each of
the three alone says as much. So a second conversion, by whatever converter, changes nothing. The same is true of
statements. -/
theorem convert_changes_idiom_only (c : Converter) :
    (∀ program : Program,
      (c.Keeps program ↔ ¬ HoldsForEach program.events) ∧
      ((c.convert program).1 = program ∨ c.drawn (.program program) = [] ∨
        (c.convert program).2.1.converted = c.converted → ¬ HoldsForEach program.events) ∧
      ∀ d : Converter, d.Keeps (c.convert program).1) ∧
    ∀ stmts : List Stmt, c.convertStmts stmts = (stmts, c) ↔ ¬ HoldsForEach (eventsOfStmts stmts) := by
  refine ⟨fun program => ?_, fun stmts => ?_⟩
  · rw [holdsForEach_program, ← quiet_iff_not_holdsForEach]
    refine ⟨⟨fun keeps => quiet_of_convert_eq keeps.result, c.keeps_of_quiet⟩, ?_, fun d => ?_⟩
    · rintro (same | drawn | same)
      · exact quiet_of_convert_eq same
      · exact quiet_of_converted_eq ((c.drawn_eq_nil_iff _).mp drawn)
      · exact quiet_of_converted_eq same
    · exact d.keeps_of_quiet (quiet_walkStmts c.config _ _)
  · rw [← quiet_iff_not_holdsForEach]
    constructor
    · intro same
      have quiet := quiet_walkStmts c.config stmts (c.start (.stmts stmts))
      have body : (walkStmts (hooks c.config) stmts (c.start (.stmts stmts))).1 = stmts := congrArg Prod.fst same
      rwa [body] at quiet
    · intro quiet
      have walk := c.walk_request_of_quiet (.stmts stmts) quiet
      exact congrArg (fun r => (r.1, c.after r.2)) walk

end Converter

end IndexedLoop
