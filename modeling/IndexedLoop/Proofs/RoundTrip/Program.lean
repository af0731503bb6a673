import IndexedLoop.Proofs.RoundTrip.Clean
import IndexedLoop.Proofs.RoundTrip.Statement
import IndexedLoop.Source

/-!
# Programs

The readers of pieces nested up to `n` deep read every text shorter than `n` (`Level.covers_at`): a piece is
longer than what is nested in it. So a source is read at the level of its length (`read?_stmtsText`), and the
surface tree is lowered without an error (`Reading.ofSurface_stands`).
-/

namespace IndexedLoop

open Lexical Parse Grammar

/-- The readers of level `n` read the texts of canonical trees shorter than `n`. -/
theorem Level.covers_at (n : Nat) : (Level.at n).Covers definedTarget n := by
  induction n with
  | zero => exact ⟨nofun, nofun, nofun, nofun⟩
  | succ n ih =>
    exact
      { expr := fun h written short close suits header starts =>
          reads_expr ih h written (Nat.le_of_lt_succ short) close suits header starts
        unary := fun h short shows_ boundary suits place starts =>
          reads_unary ih h (Nat.le_of_lt_succ short) shows_ boundary suits place starts
        callee := fun h short call starts => reads_callee ih h (Nat.le_of_lt_succ short) call starts
        stmt := fun h short next dangling starts =>
          reads_statement ih next h (Nat.le_of_lt_succ short) dangling starts }

/-! ## Sources -/

section

variable {rule : TargetRule}

theorem next_program {body : List Stmt} (h : canonicalStmts rule body) :
    Next (stmtsText body) ∧ (View.of .plain (stmtsText body)).token ≠ .word "else" := by
  cases body with
  | nil => exact ⟨.finish, by decide⟩
  | cons s body =>
    rw [stmtsText_cons]
    exact ⟨(s.opening h.1 _).next, (s.opening h.1 _).ne_else⟩

theorem length_le_program {body : List Stmt} (h : canonicalStmts rule body) :
    body.length ≤ (stmtsText body).length := by
  induction body with
  | nil => simp
  | cons s body ih =>
    have first := List.length_pos_iff.mpr (s.text_ne_nil h.1)
    have rest := ih h.2
    rw [stmtsText_cons, List.length_cons, List.length_append]
    omega

end

theorem reads_allStatementsIn {g : Level} {n : Nat} (covers : g.Covers definedTarget n) : (body : List Stmt) →
    canonicalStmts definedTarget body → (∀ s ∈ body, s.text.length ≤ n) → (rounds : List Symbol) → (c : Cursor) →
    body.length < rounds.length → c.Starts (stmtsText body) →
    Reads (allStatementsIn g rounds) c fun ss d => List.Forall₂ Surface.Stmt.Stands ss body ∧ d.pending = []
  | _, _, _, [], _, enough, _ => by simp at enough
  | [], _, _, _ :: rounds, c, _, starts => by
    have token : c.lexeme.token = .finish := Cursor.Sees.token starts
    simp only [allStatementsIn, reads_bind, reads_look, token, ↓reduceIte, reads_pure]
    exact ⟨.nil, starts.pending⟩
  | s :: body, h, short, _ :: rounds, c, enough, starts => by
    rw [stmtsText_cons] at starts
    have token : c.lexeme.token ≠ .finish := by
      rw [Cursor.Sees.token starts]
      exact (s.opening h.1 _).ne_of_isLead (by decide) (by decide)
    simp only [allStatementsIn, reads_bind, reads_look, token, ↓reduceIte, reads_pure]
    refine (reads_statement covers (next_program h.2).1 h.1 (short s (by simp)) (fun _ => (next_program h.2).2)
      starts).mono fun s' d read => ?_
    refine (reads_allStatementsIn covers body h.2 (fun s mem => short s (by simp [mem])) rounds d
      (by simpa using enough) read.2).mono fun ss d' more => ?_
    exact ⟨.cons read.1 more.1, more.2⟩

/-- A text starts with no byte order mark and no line for the system. -/
theorem stmtsText_first {rule : TargetRule} {body : List Stmt} (h : canonicalStmts rule body) :
    startsWith ['﻿'] (stmtsText body) = false ∧ startsWith ['#', '!'] (View.of .plain (stmtsText body)).start = false := by
  cases body with
  | nil => exact ⟨rfl, rfl⟩
  | cons s body =>
    have opening := s.opening h.1 (stmtsText body)
    obtain ⟨c, rest, text, blank, -⟩ := opening.calm.first
    rw [stmtsText_cons, opening.calm.view, text]
    constructor
    · have mark : c ≠ '﻿' := by
        rintro rfl
        cases blank
      simp [startsWith, mark.symm]
    · have sign : c ≠ '#' := by
        rintro rfl
        have token : (View.of .plain (s.text ++ stmtsText body)).token ∈ [.unreadable, .privateName] := by
          rw [opening.calm.view, text]
          simp only [Token.read]
          split <;> simp
        simp only [List.mem_cons, List.not_mem_nil, or_false] at token
        rcases token with token | token
        · exact opening.ne_of_isLead (by decide) (by decide) token
        · exact opening.ne_of_isLead (by decide) (by decide) token
      simp [startsWith, sign.symm]

/-- The text of a canonical program is read. -/
theorem read?_stmtsText {body : List Stmt} (h : canonicalStmts definedTarget body) :
    ∃ p, Surface.Program.read? (stmtsText body) = some p ∧ List.Forall₂ Surface.Stmt.Stands p.body body := by
  have first := stmtsText_first h
  have null : (stmtsText body).any (·.isChar '\x00') = false := by
    have clean := (Rendered.clean_concat (clean_renderStmts body h)).null
    rw [List.any_eq_false]
    intro x mem isNull
    obtain ⟨c, char, rfl⟩ := List.mem_map.mp mem
    have : c = '\x00' := by simpa [Symbol.isChar] using isNull
    exact clean (this ▸ char)
  have start : Surface.Program.start (stmtsText body) = Cursor.start (stmtsText body) := by
    simp [Surface.Program.start, first.1]
  have at_ : (Cursor.start (stmtsText body)).At .plain (stmtsText body) := ⟨rfl, rfl, rfl⟩
  have read : Reads (source (Level.at ((stmtsText body).length + 1))) (Cursor.start (stmtsText body)) fun ss _ =>
      List.Forall₂ Surface.Stmt.Stands ss body := by
    have line : startsWith ['#', '!'] (Cursor.start (stmtsText body)).lexeme.start.rest = false := by
      rw [at_.sees.start]
      exact first.2
    simp only [source, hashBang, reads_bind, reads_look, line, Bool.false_eq_true, ↓reduceIte, reads_pure,
      reads_rounds, reads_get, List.nil_append]
    refine (reads_allStatementsIn (Level.covers_at _) body h ?_ _ _ ?_ at_.starts).mono fun ss d stand => ?_
    · intro s mem
      have := length_le_stmtsText mem
      omega
    · have := length_le_program h
      simp only [Cursor.start, List.length_cons]
      omega
    · simp only [stand.2, List.isEmpty_nil, reads_guard_true]
      exact stand.1
  obtain ⟨ss, d, run, stand⟩ := read
  simp only [Surface.Program.read?, null, Bool.false_eq_true, ↓reduceIte, start, run]
  exact ⟨_, rfl, stand⟩

/-! ## Lowering -/

namespace Reading

theorem add_stands (file : String) (r : Reading) {s : Surface.Stmt} {stmt : Stmt} (h : s.Stands stmt) :
    ∃ stmt', r.add file s = { r with program := { r.program with body := r.program.body ++ [stmt'] } } ∧
      stmt'.bare = stmt.bare := by
  obtain ⟨stmt', run, bare⟩ := (h.lowers file).orUnknown "statement" file s.piece .unknown r.log
  refine ⟨stmt', ?_, bare⟩
  have run : (s.lower file).run r.log = (.ok stmt', r.log) := run
  rw [add, run]

theorem foldl_stands (file : String) {ss : List Surface.Stmt} {stmts : List Stmt}
    (h : List.Forall₂ Surface.Stmt.Stands ss stmts) (r : Reading) :
    ∃ more, ss.foldl (add file) r = { r with program := { r.program with body := r.program.body ++ more } } ∧
      bareStmts more = bareStmts stmts := by
  induction h generalizing r with
  | nil => exact ⟨[], by simp, rfl⟩
  | cons first _ ih =>
    obtain ⟨stmt, step, bare⟩ := r.add_stands file first
    obtain ⟨more, run, rest⟩ := ih (r.add file _)
    refine ⟨stmt :: more, ?_, congrArg₂ List.cons bare rest⟩
    rw [List.foldl_cons, run, step]
    simp

/-- What stands for statements is lowered to them, up to spans. -/
theorem ofSurface_stands (file : String) {p : Surface.Program} {stmts : List Stmt}
    (h : List.Forall₂ Surface.Stmt.Stands p.body stmts) :
    (ofSurface file p).isComplete = true ∧ bareStmts (ofSurface file p).program.body = bareStmts stmts := by
  obtain ⟨more, run, bare⟩ := foldl_stands file h ⟨⟨p.extent.toSpan file, []⟩, [], []⟩
  rw [ofSurface, run]
  exact ⟨rfl, bare⟩

end Reading

end IndexedLoop
