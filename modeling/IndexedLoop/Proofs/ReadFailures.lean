import IndexedLoop.Proofs.Leaves
import IndexedLoop.Proofs.NumberTokens

/-!
# What cannot be read

A source that the grammar takes has a reading. What is missing in it are statements with a literal that has no
value: a number in a base other than ten that is too large, or a text in bytes that are no UTF-8. No construct is an
error, so a text whose numbers are not too large is read completely.
-/

namespace IndexedLoop

namespace Surface

variable {file : String} {l : Literal} {e : Located ReadError}

/-- A literal without a value is a number that is too large, or no text. -/
theorem Literal.Fails.cases {src : List Symbol} (h : l.Fails file e) (faithful : (Node.literal l).Faithful src) :
    (∃ text, e = .here (.badNumber text) (l.extent.toSpan file) ∧ l.literalClass = .number ∧
      l.text = Symbol.ofString text ∧ NumberLiteral.TooLarge text) ∨
    (∃ fault, e = .here (.invalidUtf8 fault) (l.extent.toSpan file) ∧ ∀ text, l.text ≠ Symbol.ofString text) := by
  cases h with
  | @invalidUtf8 fault toText =>
    refine .inr ⟨fault, rfl, fun text same => ?_⟩
    rw [same, Symbol.toText_ofString] at toText
    cases toText
  | @badNumber text toText number none =>
    have isNumber : Lexical.IsNumber l.text := by
      have written := faithful.2
      rw [number] at written
      exact written
    obtain ⟨text', same, value⟩ := isNumber.value_or_tooLarge
    rw [same, Symbol.toText_ofString] at toText
    cases toText
    refine .inl ⟨text, rfl, number, same, ?_⟩
    rw [numberConstant?] at none
    split at none
    · cases none
    · next small =>
      rcases value with big | ⟨x, read⟩ | large
      · exact absurd big small
      · rw [read] at none
        cases none
      · exact large

/-- A node below a node of a source lies in the source. -/
theorem Node.Lies.within {src : List Symbol} {lo hi : Nat} {tree node : Node} (h : tree.Lies src lo hi)
    (below : tree.Within node) : ∃ lo hi, node.Lies src lo hi := by
  induction below with
  | refl => exact ⟨lo, hi, h⟩
  | tail _ part ih =>
    obtain ⟨_, _, lies⟩ := ih
    exact ⟨_, _, lies.parts.of_mem part⟩

theorem Program.Lies.faithful {src : List Symbol} {p : Program} {node : Node} (h : p.Lies src) (holds : p.Holds node) :
    node.Faithful src := by
  obtain ⟨s, mem, within⟩ := holds
  obtain ⟨_, _, lies⟩ := (h.body.of_mem (List.mem_map_of_mem mem)).within within
  exact (Node.lies_iff.mp lies).2.1

end Surface

namespace Reading

variable {file : String} {bytes : List UInt8} {p : Surface.Program}

/-- An error is a number of the source that is too large, or comes of bytes that are no text. -/
theorem error_cases (h : p.Lies (Utf8.decode bytes)) {e : Located ReadError} (mem : e ∈ (ofSurface file p).errors) :
    (∃ l text, p.Holds (.literal l) ∧ l.literalClass = .number ∧ l.text = Symbol.ofString text ∧
      NumberLiteral.TooLarge text ∧ e = .here (.badNumber text) (l.extent.toSpan file) ∧
      (l.extent.toSpan file).slice bytes = Utf8.encode text) ∨
    (∃ fault span, e = .here (.invalidUtf8 fault) span ∧ ¬ ∃ text, bytes = Utf8.encode text) := by
  obtain ⟨l, holds, fails⟩ := errors_ofSurface h mem
  have faithful := h.faithful holds
  rcases fails.cases faithful with ⟨text, error, number, same, large⟩ | ⟨fault, error, noText⟩
  · refine .inl ⟨l, text, holds, number, same, large, error, ?_⟩
    rw [faithful.1.slice file, same, Symbol.bytes_ofString]
  · refine .inr ⟨fault, _, error, ?_⟩
    rintro ⟨text, rfl⟩
    obtain ⟨t, same⟩ := (Utf8.decode_encode text ▸ faithful.1).exists_text
    exact noText t same

/-- A source with a construct that has no form, with the number `2 ^ 128`, and with a byte that is no text. -/
def exampleBytes : List UInt8 :=
  Utf8.encode "class A \x7b\x7d\nf(0x1_00000000000000000000000000000000);\n'" ++ 0xFF :: Utf8.encode "';"

end Reading

end IndexedLoop
