import IndexedLoop.Proofs.Extents.Lowering

/-!
# Spans describe the source

A span describes a stretch of the bytes of a file (`Span.Describes`) if its offsets lie in them in order, and its
points are those of the offsets. Every span of a program that is read from bytes describes a stretch of them, lies
inside of the span of the tree around it, and starts no earlier than what a visit meets before.
-/

namespace IndexedLoop

/-! ## Points -/

/-- The point of a text at a byte offset: the row counts the line feeds before it, and the column the bytes since
the last of them. -/
def Point.ofOffset (bytes : List UInt8) (offset : Nat) : Point :=
  ⟨(bytes.take offset).count 10, ((bytes.take offset).reverse.takeWhile (· ≠ 10)).length⟩

theorem Symbol.length_flatMap_bytes (s : List Symbol) : (s.flatMap bytes).length = sizes s := by
  rw [List.length_flatMap, sizes]
  exact congrArg List.sum (List.map_congr_left fun x _ => x.length_bytes)

/-- A symbol with the byte of a line feed is a line feed. -/
theorem Symbol.eq_newline_of_mem {x : Symbol} (h : 10 ∈ x.bytes) (stray : ∀ b, x = .stray b → 0x7F < b.toNat) :
    x = .char '\n' := by
  cases x with
  | char c => rw [Utf8.eq_newline_of_mem h]
  | stray b =>
    have big := stray b rfl
    rw [← List.mem_singleton.mp h] at big
    exact absurd big (by decide)

namespace Place

/-- Rows count line feeds, and columns the bytes behind the last of them. -/
theorem point_behind (s : List Symbol) (strays : ∀ b, .stray b ∈ s → 0x7F < b.toNat) :
    (⟨(origin.behind s).row, (origin.behind s).col⟩ : Point) =
      ⟨(s.flatMap Symbol.bytes).count 10, ((s.flatMap Symbol.bytes).reverse.takeWhile (· ≠ 10)).length⟩ := by
  induction s using List.reverseRecOn with
  | nil => rfl
  | append_singleton s x ih =>
    have ih := ih fun b mem => strays b (List.mem_append_left _ mem)
    rw [Point.mk.injEq] at ih ⊢
    rw [behind_append, behind_cons, behind_nil, after, List.flatMap_append, List.flatMap_singleton, List.count_append,
      List.reverse_append, ih.1, ih.2]
    split
    · next newline =>
      subst newline
      exact ⟨rfl, rfl⟩
    · next other =>
      have absent : 10 ∉ x.bytes := fun mem => other <| Symbol.eq_newline_of_mem mem fun b e =>
        strays b (List.mem_append_right _ (List.mem_singleton.mpr e.symm))
      have passed : ∀ b ∈ x.bytes.reverse, decide (b ≠ 10) = true := by
        intro b mem
        rw [decide_eq_true_eq]
        rintro rfl
        exact absent (List.mem_reverse.mp mem)
      rw [List.count_eq_zero.mpr absent, List.takeWhile_append_of_pos passed, List.length_append, List.length_reverse,
        Symbol.length_bytes]
      exact ⟨rfl, Nat.add_comm _ _⟩

/-- A place of a source is the point at its offset. -/
theorem In.point {bytes : List UInt8} {p : Place} (h : p.In (Utf8.decode bytes)) :
    p.offset ≤ bytes.length ∧ (⟨p.row, p.col⟩ : Point) = Point.ofOffset bytes p.offset := by
  obtain ⟨before, ⟨rest, e⟩, rfl⟩ := h
  have whole : before.flatMap Symbol.bytes ++ rest.flatMap Symbol.bytes = bytes := by
    rw [← List.flatMap_append, e, Utf8.bytes_decode]
  have length := Symbol.length_flatMap_bytes before
  rw [offset_origin_behind, Point.ofOffset]
  constructor
  · rw [← whole, List.length_append, length]
    exact Nat.le_add_right _ _
  · have strays (b : UInt8) (mem : .stray b ∈ before) : 0x7F < b.toNat :=
      Utf8.stray_of_mem_decode (e ▸ List.mem_append_left rest mem)
    rw [point_behind before strays, ← whole, ← length, List.take_left]

end Place

/-! ## Spans -/

namespace Span

/-- The span describes a stretch of the bytes of a file. -/
structure Describes (file : String) (bytes : List UInt8) (s : Span) : Prop where
  file_eq : s.file = file
  ordered : s.Ordered
  upper : s.byteEnd ≤ bytes.length
  first : s.first = Point.ofOffset bytes s.byteStart
  last : s.last = Point.ofOffset bytes s.byteEnd

/-- One span lies inside of another. -/
def Inside (s outer : Span) : Prop := outer.byteStart ≤ s.byteStart ∧ s.byteEnd ≤ outer.byteEnd

theorem describes_of_lies {file : String} {bytes : List UInt8} {lo hi : Nat} {e : Extent}
    (h : e.Lies (Utf8.decode bytes) lo hi) : (e.toSpan file).Describes file bytes :=
  ⟨rfl, h.ordered, h.stop.point.1, h.start.point.2, h.stop.point.2⟩

end Span

namespace Subtree

variable {bytes : List UInt8} {file : String} {lo hi : Nat} {t : Subtree}

/-- A subtree of a source has a span of the source, and its children have spans inside of it. -/
theorem Stands.span_describes (h : t.Stands (Utf8.decode bytes) file lo hi) :
    t.span.Describes file bytes ∧ ∀ child ∈ t.children, child.span.Inside t.span := by
  obtain ⟨span, extent, -, -, inside, children, -⟩ := h
  rw [span]
  refine ⟨Span.describes_of_lies extent, fun child mem => ⟨?_, inside child mem⟩⟩
  obtain ⟨child_span, child_extent, -⟩ := children.of_mem mem
  rw [child_span]
  exact child_extent.lower

end Subtree

namespace Reading

variable {file : String} {bytes : List UInt8} {r : Reading}

/-- The program that is read from bytes stands in their symbols. -/
theorem stands_ofBytes (h : ofBytes? file bytes = some r) :
    (Subtree.program r.program).Stands (Utf8.decode bytes) file 0 (Symbol.sizes (Utf8.decode bytes)) := by
  obtain ⟨p, read, rfl⟩ := Option.map_eq_some_iff.mp h
  exact stands_ofSurface (Surface.Program.read_lies read)

/-- The spans of a program describe the bytes that it was read from. They nest as the tree does, and start in the
order of a visit. -/
theorem spans_describe_source (h : ofBytes? file bytes = some r) :
    (∀ t, (Subtree.program r.program).Within t →
      t.span.Describes file bytes ∧ ∀ child ∈ t.children, child.span.Inside t.span) ∧
    (∀ event ∈ r.program.events, event.span.Describes file bytes) ∧
    r.program.events.Pairwise fun a b => a.span.byteStart ≤ b.span.byteStart := by
  have stands := stands_ofBytes h
  have describes (t : Subtree) (within : (Subtree.program r.program).Within t) :
      t.span.Describes file bytes ∧ ∀ child ∈ t.children, child.span.Inside t.span := by
    obtain ⟨_, _, below⟩ := stands.within within
    exact below.span_describes
  refine ⟨describes, fun event mem => ?_, stands.events.pairwise_starts⟩
  obtain ⟨t, within, visited⟩ := stands.visited mem
  rw [Subtree.span_of_mem_visits visited]
  exact (describes t within).1

/-- A source in which characters take one byte and two, a property is its own key, and parentheses and a comment
leave no trace. -/
def exampleText : String := "var é = \x7ba\x7d;\n/* ü */ (f)(é, 'ä', 0x1F, 7n, /x/);"

theorem spans_describe_source_exampleText : ∃ r, ofBytes? "a.js" (Utf8.encode exampleText) = some r ∧
    (∀ t, (Subtree.program r.program).Within t →
      t.span.Describes "a.js" (Utf8.encode exampleText) ∧ ∀ child ∈ t.children, child.span.Inside t.span) ∧
    (∀ event ∈ r.program.events, event.span.Describes "a.js" (Utf8.encode exampleText)) ∧
    r.program.events.Pairwise fun a b => a.span.byteStart ≤ b.span.byteStart := by
  have accepted : (ofBytes? "a.js" (Utf8.encode exampleText)).isSome = true := by decide +kernel
  obtain ⟨r, read⟩ := Option.isSome_iff_exists.mp accepted
  exact ⟨r, read, spans_describe_source read⟩

end Reading

end IndexedLoop
