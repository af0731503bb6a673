import IndexedLoop.Proofs.SourceSpans

/-!
# Leaves say what the source says

The bytes of a source at the span of a name are the bytes of the name, and those at the span of a literal are the
bytes of a text that denotes the value of the literal (`Constant.Denoted`).
-/

namespace IndexedLoop

/-- The bytes of a source at a span. -/
def Span.slice (bytes : List UInt8) (s : Span) : List UInt8 :=
  (bytes.drop s.byteStart).take (s.byteEnd - s.byteStart)

/-- The bytes at an extent are those of the symbols there. -/
theorem Extent.Spells.slice {bytes : List UInt8} {e : Extent} {symbols : List Symbol}
    (h : e.Spells (Utf8.decode bytes) symbols) (file : String) :
    (e.toSpan file).slice bytes = symbols.flatMap Symbol.bytes := by
  obtain ⟨before, ⟨rest, eq⟩, start, stop⟩ := h
  have whole : before.flatMap Symbol.bytes ++ (symbols.flatMap Symbol.bytes ++ rest.flatMap Symbol.bytes) = bytes := by
    rw [← List.append_assoc, ← List.flatMap_append, ← List.flatMap_append, eq, Utf8.bytes_decode]
  have first : e.start.offset = (before.flatMap Symbol.bytes).length := by
    rw [start, Place.offset_origin_behind, Symbol.length_flatMap_bytes]
  have last : e.stop.offset = e.start.offset + (symbols.flatMap Symbol.bytes).length := by
    rw [start, stop, Place.offset_origin_behind, Place.offset_origin_behind, Symbol.sizes_append,
      Symbol.length_flatMap_bytes]
  change (bytes.drop e.start.offset).take (e.stop.offset - e.start.offset) = _
  rw [last, Nat.add_sub_cancel_left, first, ← whole, List.drop_left, List.take_left]

/-- In a text every stretch is a text. -/
theorem Extent.Spells.exists_text {text : String} {e : Extent} {symbols : List Symbol}
    (h : e.Spells (Symbol.ofString text) symbols) : ∃ t, symbols = Symbol.ofString t := by
  obtain ⟨before, starts, -⟩ := h
  refine ⟨Token.textOf symbols, (Symbol.ofString_textOf fun x mem => ?_).symm⟩
  obtain ⟨c, -, rfl⟩ := List.mem_map.mp (starts.subset (List.mem_append_right before mem))
  rfl

namespace Subtree

/-- A visit meets a name at the name. -/
theorem eq_of_visits_identifier {t : Subtree} {id : Identifier} (h : .identifier id ∈ t.visits) :
    t = .identifier id := by
  cases t with
  | identifier id' =>
    cases List.mem_singleton.mp h
    rfl
  | stmt s => cases s <;> simp [visits, visitsOfStmt] at h
  | expr e => cases e <;> simp [visits] at h
  | _ => simp [visits] at h

/-- A visit meets a literal at the literal. -/
theorem eq_of_visits_literal {t : Subtree} {lit : Literal} (h : .expr (.literal lit) ∈ t.visits) :
    t = .expr (.literal lit) := by
  cases t with
  | expr e =>
    cases e with
    | literal lit' =>
      cases List.mem_singleton.mp h
      rfl
    | _ => simp [visits] at h
  | stmt s => cases s <;> simp [visits, visitsOfStmt] at h
  | _ => simp [visits] at h

end Subtree

namespace Reading

/-- A name that is read from a text is what the text has at its span, and a literal denotes what the text has at
its span. -/
theorem leaves_say_source {file text : String} {r : Reading} (h : ofBytes? file (Utf8.encode text) = some r) :
    (∀ id, .identifier id ∈ r.program.events → id.span.slice (Utf8.encode text) = Utf8.encode id.name) ∧
    (∀ lit, .expr (.literal lit) ∈ r.program.events →
      ∃ t, lit.span.slice (Utf8.encode text) = Utf8.encode t ∧ lit.value.Denoted t) := by
  have stands := stands_ofBytes h
  constructor
  · intro id mem
    obtain ⟨t, within, visited⟩ := stands.visited mem
    obtain rfl := Subtree.eq_of_visits_identifier visited
    obtain ⟨_, _, span, -, -, faithful, -⟩ := stands.within within
    rw [show id.span = _ from span, faithful.slice file, Symbol.bytes_ofString]
  · intro lit mem
    obtain ⟨t, within, visited⟩ := stands.visited mem
    obtain rfl := Subtree.eq_of_visits_literal visited
    obtain ⟨_, _, span, -, -, ⟨symbols, value, spells, toText, denoted⟩, -⟩ := stands.within within
    refine ⟨value, ?_, denoted⟩
    obtain ⟨word, rfl⟩ := (Utf8.decode_encode text ▸ spells).exists_text
    rw [Symbol.toText_ofString] at toText
    cases toText
    rw [show lit.span = _ from span, spells.slice file, Symbol.bytes_ofString]

theorem leaves_say_source_exampleText : ∃ r, ofBytes? "a.js" (Utf8.encode exampleText) = some r ∧
    (∀ id, .identifier id ∈ r.program.events → id.span.slice (Utf8.encode exampleText) = Utf8.encode id.name) ∧
    (∀ lit, .expr (.literal lit) ∈ r.program.events →
      ∃ t, lit.span.slice (Utf8.encode exampleText) = Utf8.encode t ∧ lit.value.Denoted t) := by
  have accepted : (ofBytes? "a.js" (Utf8.encode exampleText)).isSome = true := by decide +kernel
  obtain ⟨r, read⟩ := Option.isSome_iff_exists.mp accepted
  exact ⟨r, read, leaves_say_source read⟩

end Reading

end IndexedLoop
