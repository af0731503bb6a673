import IndexedLoop.Proofs.ReadFailures

/-!
# The operands of a sequence

What stands between the commas of a source are the operands of one sequence, however many there are: a comma never
takes a sequence for its left or right side. Parentheses go away when the surface tree is lowered, and the sequence
that stood in them stays an operand of its own. So a sequence is nested in another exactly where it stands in
parentheses (`Reading.nested_iff_grouped`).
-/

namespace IndexedLoop.Reading

variable {file : String} {bytes : List UInt8} {r : Reading}

/-- A sequence of a program that was read comes from one of the source. None of the items there is a sequence
itself, and an operand is one exactly if its item is a sequence in parentheses. So the sequence is flat exactly if no
item is a sequence in parentheses. -/
theorem nested_iff_grouped (h : ofBytes? file bytes = some r) {span : Span} {es : List Expr}
    (within : (Subtree.program r.program).Within (.expr (.sequence span es))) :
    ∃ p extent items, Surface.Program.read? (Utf8.decode bytes) = some p ∧
      p.Holds (.expr (.sequence extent items)) ∧ span = extent.toSpan file ∧
      (∀ item ∈ items, item.isSequence = false) ∧
      es.map Expr.isSequence = items.map Surface.Expr.isGrouped ∧
      ((∀ e ∈ es, e.isSequence = false) ↔ ∀ item ∈ items, item.isGrouped = false) := by
  obtain ⟨p, read, rfl⟩ := Option.map_eq_some_iff.mp h
  have lies := Surface.Program.read_lies read
  obtain ⟨extent, items, holds, span_eq, same⟩ := (shaped_ofSurface lies within).listed
  have single : ∀ item ∈ items, item.isSequence = false := (lies.faithful holds).2
  have grouped : es.map Expr.isSequence = items.map Surface.Expr.isGrouped := by
    rw [same]
    refine List.map_congr_left fun item mem => ?_
    rw [single item mem, Bool.false_or]
  refine ⟨p, extent, items, read, holds, span_eq, single, grouped, ?_⟩
  rw [← List.forall_mem_map (P := (· = false)), grouped, List.forall_mem_map]

/-- For each sequence of the program, which of its operands are sequences, in the order of a visit. -/
def nested (r : Reading) : List (List Bool) :=
  r.program.events.filterMap fun
    | .expr (.sequence _ es) => some (es.map Expr.isSequence)
    | _ => none

/-- Sequences beside one another, in parentheses, and in brackets that are no parentheses. -/
def exampleCommas : String := "a, (b, c), ((d, e, f)), g[h, i], j((k, l));"

theorem nested_iff_grouped_exampleCommas :
    (ofBytes? "a.js" (Utf8.encode exampleCommas)).map nested =
      some [[false, true, true, false, false], [false, false], [false, false, false], [false, false],
        [false, false]] ∧
    ∃ r, ofBytes? "a.js" (Utf8.encode exampleCommas) = some r ∧
      ∀ span es, (Subtree.program r.program).Within (.expr (.sequence span es)) →
        ∃ p extent items, Surface.Program.read? (Utf8.decode (Utf8.encode exampleCommas)) = some p ∧
          p.Holds (.expr (.sequence extent items)) ∧ span = extent.toSpan "a.js" ∧
          (∀ item ∈ items, item.isSequence = false) ∧
          es.map Expr.isSequence = items.map Surface.Expr.isGrouped ∧
          ((∀ e ∈ es, e.isSequence = false) ↔ ∀ item ∈ items, item.isGrouped = false) := by
  have accepted : (ofBytes? "a.js" (Utf8.encode exampleCommas)).isSome = true := by decide +kernel
  obtain ⟨r, read⟩ := Option.isSome_iff_exists.mp accepted
  exact ⟨by decide +kernel, r, read, fun _ _ within => nested_iff_grouped read within⟩

/-- A sequence in parentheses, in front of a comma. -/
def groupedText : String := "(a, b), c;"

/-- The statement that the program consists of is a sequence whose first operand is a sequence. -/
def startsNested (r : Reading) : Bool :=
  match r.program.body with
  | [.expression _ (.sequence _ (first :: _))] => first.isSequence
  | _ => false

/-- A sequence in parentheses is an operand of the sequence around it, which is not flat. -/
theorem not_flat_groupedText : ∃ r, ofBytes? "" (Utf8.encode groupedText) = some r ∧ r.isComplete = true ∧
    ¬ ∀ span es, (Subtree.program r.program).Within (.expr (.sequence span es)) → ∀ e ∈ es, e.isSequence = false := by
  have read : (ofBytes? "" (Utf8.encode groupedText)).map (fun r => (r.isComplete, r.startsNested)) =
      some (true, true) := by decide +kernel
  obtain ⟨r, read, found⟩ := Option.map_eq_some_iff.mp read
  obtain ⟨complete, nested⟩ := Prod.mk.inj found
  refine ⟨r, read, complete, fun flat => ?_⟩
  unfold startsNested at nested
  split at nested
  · next stmt span first rest body =>
    have child : (Subtree.program r.program).Within (.expr (.sequence span (first :: rest))) := by
      refine .tail (.single (b := .stmt (.expression stmt (.sequence span (first :: rest)))) ?_) ?_
      · simp [Subtree.children, body]
      · exact List.mem_singleton_self _
    rw [flat span _ child first (List.mem_cons_self ..)] at nested
    cases nested
  · cases nested

end IndexedLoop.Reading
