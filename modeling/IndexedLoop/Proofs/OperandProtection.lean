import IndexedLoop.Proofs.Operands.Statement

/-!
# Operand protection

Wherever an expression is printed as a part of another one, nothing in its text binds more loosely than the place
allows, except inside of brackets. How tokens bind and which brackets stand around them is read off the text alone, by
`Scan.items?`. That a text has items says that its brackets are balanced: each one that closes closes the last one
that is open, and at the end none is open.
-/

namespace IndexedLoop

open Scan

namespace Scan

variable {w : Nat} {dotted : Bool} {s : List Symbol} {text : String}

/-- A passage from one end of a text to the other finds all its items. -/
theorem Passage.items {ψ : Phase} (h : Passage w [] .operand s ψ []) :
    ∃ items, itemsFrom 0 ⟨.operand, []⟩ s = some items ∧ ∀ i ∈ items, i.depth = 0 → i.looseness ≤ w := by
  obtain ⟨items, guards, reads⟩ := h
  refine ⟨items, ?_, fun i mem => (guards i mem).2⟩
  rw [reads]
  simp [itemsFrom]

theorem Row.items (h : Row s) : ∃ items, itemsFrom 0 ⟨.operand, []⟩ s = some items := by
  obtain ⟨ψ, passage⟩ := h [] .operand [] (starts_operand s) .nil
  rw [List.append_nil] at passage
  obtain ⟨items, read, -⟩ := passage.items
  exact ⟨items, read⟩

theorem Operand.items (h : Operand w dotted s) :
    ∃ items, itemsFrom 0 ⟨.operand, []⟩ s = some items ∧ ∀ i ∈ items, i.depth = 0 → i.looseness ≤ w := by
  have passage := h.passage [] .operand [] (starts_operand s) .nil
  rw [List.append_nil] at passage
  exact passage.items

/-- A row in parentheses has one pair of parentheses around everything else. -/
theorem Row.items_inParens (h : Row s) : ∃ first inner last,
    itemsFrom 0 ⟨.operand, []⟩ (IndexedLoop.inParens s) = some (first :: (inner ++ [last])) ∧
      first.token? = some (.punct "(") ∧ last.token? = some (.punct ")") ∧ ∀ i ∈ inner, 0 < i.depth := by
  obtain ⟨χ, inside⟩ := h [⟨")", .operator⟩] .operand [.char ')'] (starts_operand s) (.of_mem (by decide) (by decide))
  obtain ⟨inner, guards, reads⟩ : ∃ inner, Guards 1 4 inner ∧ Reads ⟨.operand, []⟩ (IndexedLoop.inParens s)
      ([⟨.token (.punct "("), .operand, 0⟩] ++ inner ++ [⟨.token (.punct ")"), χ, 0⟩]) ⟨.operator, []⟩ [] :=
    reads_enclosed (p := "(") (by decide) rfl inside
  refine ⟨⟨.token (.punct "("), .operand, 0⟩, inner, ⟨.token (.punct ")"), χ, 0⟩, ?_, rfl, rfl,
    fun i mem => (guards i mem).1⟩
  rw [reads]
  simp [itemsFrom]

end Scan

namespace Expr

theorem items?_wrapIf (e : Expr) (b : Bool) :
    items? (e.render.wrapIf b).text = itemsFrom 0 ⟨.operand, []⟩ (e.textIf b) := by
  rw [items?, ← e.symbols_wrapIf b]
  rfl

/-- A member of a call of a conditional, whose test is a sequence and whose last branch is a function. -/
def exampleTangle : Expr :=
  .member .none
    (.call .none
      (.conditional .none (.sequence .none [.ident "a", .update .none .increment false (.ident "b")])
        (.assignment .none .add (.member .none (.ident "c") (.ident "in") .dot) (.unary .none .neg (.ident "d")))
        (.function ⟨.none, some (.synthesized "typeof"), [.ident "x"],
          ⟨.none, [.ret .none (some (.literal ⟨.none, .regExp "/[,(]/g"⟩))]⟩⟩))
      [.sequence .none [.ident "e", .ident "f"]])
    (.ident "g") .dot

end Expr

end IndexedLoop
