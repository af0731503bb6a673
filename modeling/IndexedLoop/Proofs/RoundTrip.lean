import IndexedLoop.Proofs.RoundTrip.Bare
import IndexedLoop.Proofs.RoundTrip.Program

/-!
# Printing and reading

Reading undoes printing: the text of a canonical program is complete, and reads as a program that is equal up
to spans (`Program.read_render`). So the text stays as it is when it is read and printed again
(`Program.render_fixpoint`). Canonical programs assign to `undefined` only plainly, and hold no
number that is not finite; without these restrictions both fail (`Program.not_read_compound_undefined`,
`Reading.not_fixpoint_infinity_member`).
-/

namespace IndexedLoop

/-- The text of a canonical program reads as the program, up to spans. -/
theorem Program.reads {p : Program} (h : p.Canonical definedTarget) (file : String) :
    ∃ r, Reading.ofText? file p.render.text = some r ∧ r.isComplete = true ∧ r.program.bare = p.bare := by
  obtain ⟨surface, read, stand⟩ := read?_stmtsText h
  obtain ⟨complete, bare⟩ := Reading.ofSurface_stands file stand
  have read : Reading.ofText? file p.render.text = some (Reading.ofSurface file surface) :=
    congrArg (Option.map (Reading.ofSurface file)) read
  exact ⟨_, read, complete, congrArg (Program.mk .none) bare⟩

theorem Program.isComplete_render {p : Program} (h : p.Canonical definedTarget) : p.render.isComplete = true := by
  rw [Rendered.isComplete, List.isEmpty_iff]
  exact (Rendered.clean_concat (clean_renderStmts p.body h)).faults

/-- The program `for (var i = a; i < b; i++) f(i);`. -/
def exampleLoop : Program :=
  let name (text : String) : Expr := .identifier (.synthesized text)
  ⟨.none, [.forLoop ⟨.none, some (.declaration ⟨.none, .var, [⟨.none, .synthesized "i", some (name "a")⟩]⟩),
    some (.binary .none .lt (name "i") (name "b")), some (.update .none .increment false (name "i")),
    .expression .none (.call .none (name "f") [name "i"])⟩]⟩

theorem exampleLoop_canonical : exampleLoop.Canonical definedTarget := by
  have letter {w : String} (mem : w ∈ ["i", "a", "b", "f"]) : (Identifier.synthesized w).IsBinding := by
    have : ∀ w ∈ ["i", "a", "b", "f"], (∀ c ∈ w.toList, Lexical.isWordChar c = true) ∧
        (w.toList.head?.any fun c => !c.isDigit) = true ∧ w ∉ reservedWords ∧ w ≠ "undefined" := by decide
    obtain ⟨chars, first, reserved, defined⟩ := this w mem
    obtain ⟨c, head, digit⟩ := (Option.any_eq_true _ _).mp first
    exact ⟨⟨⟨.of_chars chars, c, head, by simpa using digit⟩, reserved⟩, defined⟩
  have i := letter (w := "i") (by decide)
  have a := letter (w := "a") (by decide)
  have b := letter (w := "b") (by decide)
  have f := letter (w := "f") (by decide)
  refine ⟨⟨⟨by simp, i, a.1, trivial⟩, ⟨i.1, b.1⟩, ⟨trivial, i.1⟩, f.1, i.1, trivial⟩, trivial⟩

/-- The program `undefined += 1;`. -/
def exampleUndefined : Program :=
  ⟨.none, [.expression .none (.assignment .none .add (.identifier (.synthesized "undefined"))
    (.literal ⟨.none, .number (.ofNat 1)⟩))]⟩

/-- The text of a canonical program, wherever it came from, stays as it is when it is read and printed again. -/
theorem Program.render_fixpoint (p : Program) (h : p.Canonical definedTarget) (file : String) :
    ∃ r, Reading.ofText? file p.render.text = some r ∧ r.isComplete = true ∧
      r.program.render.text = p.render.text := by
  obtain ⟨r, read, complete, bare⟩ := p.reads h file
  exact ⟨r, read, complete, text_eq_of_bare bare⟩

theorem Program.render_fixpoint_exampleLoop : ∃ r, Reading.ofText? "" exampleLoop.render.text = some r ∧
    r.isComplete = true ∧ r.program.render.text = exampleLoop.render.text :=
  exampleLoop.render_fixpoint exampleLoop_canonical ""

/-- An infinite number is printed as a name, but in front of a point in the parentheses of a number. Read back,
the name has none. -/
theorem Reading.not_fixpoint_infinity_member :
    (Reading.ofText? "" "1e999.x;").map (fun r => (r.isComplete, r.program.render)) =
        some (true, ⟨"(Infinity).x;\n", []⟩) ∧
      (Reading.ofText? "" "(Infinity).x;\n").map (fun r => (r.isComplete, r.program.render)) =
        some (true, ⟨"Infinity.x;\n", []⟩) := by
  constructor <;> decide +kernel

end IndexedLoop
