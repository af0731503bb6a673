import IndexedLoop.Proofs.RoundTrip.View

/-!
# Places of a source

A place lies in a source if it is the place behind some symbols that the source starts with (`Place.In`). A
cursor that stands in a source (`Cursor.On`) sees the rest of it from its place on, and goes on standing in it
when it moves. Every symbol takes up bytes, so the offsets of two places tell which comes first, and the text
between two cursors is what the one sees and the other does not (`Cursor.On.spells`).
-/

namespace IndexedLoop

/-! ## Sizes -/

namespace Symbol

theorem size_pos (s : Symbol) : 0 < s.size := by
  cases s with
  | char c => exact c.utf8Size_pos
  | stray b => exact Nat.one_pos

/-- The number of bytes that symbols stand for. -/
def sizes (s : List Symbol) : Nat := (s.map size).sum

@[simp]
theorem sizes_cons (x : Symbol) (s : List Symbol) : sizes (x :: s) = x.size + sizes s := by
  simp [sizes]

@[simp]
theorem sizes_append (s t : List Symbol) : sizes (s ++ t) = sizes s + sizes t := by
  simp [sizes]

theorem eq_nil_of_sizes {s : List Symbol} (h : sizes s = 0) : s = [] := by
  cases s with
  | nil => rfl
  | cons x s =>
    have := x.size_pos
    rw [sizes_cons] at h
    omega

/-- Of two texts that a text starts with, the smaller one starts the other. -/
theorem prefix_of_sizes_le {s t src : List Symbol} (hs : s <+: src) (ht : t <+: src) (le : sizes s ≤ sizes t) :
    s <+: t := by
  rcases List.prefix_or_prefix_of_prefix hs ht with h | ⟨more, rfl⟩
  · exact h
  · rw [sizes_append] at le
    have none : more = [] := eq_nil_of_sizes (by omega)
    rw [none, List.append_nil]

end Symbol

/-! ## Places -/

namespace Place

/-- The place behind symbols. -/
def behind (p : Place) (s : List Symbol) : Place := s.foldl after p

@[simp]
theorem behind_nil (p : Place) : p.behind [] = p := rfl

@[simp]
theorem behind_cons (p : Place) (x : Symbol) (s : List Symbol) : p.behind (x :: s) = (p.after x).behind s := rfl

theorem behind_append (p : Place) (s t : List Symbol) : p.behind (s ++ t) = (p.behind s).behind t :=
  List.foldl_append

theorem offset_after (p : Place) (x : Symbol) : (p.after x).offset = p.offset + x.size := by
  rw [after]
  split
  · next h =>
    subst h
    rfl
  · rfl

theorem offset_behind (p : Place) (s : List Symbol) : (p.behind s).offset = p.offset + Symbol.sizes s := by
  induction s generalizing p with
  | nil => rfl
  | cons x s ih =>
    rw [behind_cons, ih, offset_after, Symbol.sizes_cons]
    omega

@[simp]
theorem offset_origin_behind (s : List Symbol) : (origin.behind s).offset = Symbol.sizes s := by
  rw [offset_behind]
  exact Nat.zero_add _

/-- The place lies in a source: it is the place behind symbols that the source starts with. -/
def In (src : List Symbol) (p : Place) : Prop := ∃ before, before <+: src ∧ p = origin.behind before

end Place

/-! ## Cursors -/

namespace Cursor

/-- The byte offset at which a cursor stands. -/
def offset (c : Cursor) : Nat := c.place.offset

@[simp]
theorem place_offset (c : Cursor) : c.place.offset = c.offset := rfl

theorem place_advance (c : Cursor) (n : Nat) : (c.advance n).place = c.place.behind (c.rest.take n) := by
  induction n generalizing c with
  | zero => simp [advance]
  | succ n ih =>
    rw [advance]
    split
    · next h => simp [h]
    · next x rest h => simp [ih, h]

theorem offset_advance (c : Cursor) (n : Nat) : (c.advance n).offset = c.offset + Symbol.sizes (c.rest.take n) := by
  rw [offset, place_advance, Place.offset_behind]
  rfl

/-- The cursor stands in a source: its place is behind what comes before the rest that it sees. -/
def On (src : List Symbol) (c : Cursor) : Prop := ∃ before, src = before ++ c.rest ∧ c.place = .behind .origin before

variable {src : List Symbol} {c d : Cursor}

theorem On.place_in (h : c.On src) : c.place.In src := by
  obtain ⟨before, rfl, place⟩ := h
  exact ⟨before, List.prefix_append _ _, place⟩

theorem On.advance (h : c.On src) (n : Nat) : (c.advance n).On src := by
  obtain ⟨before, e, place⟩ := h
  refine ⟨before ++ c.rest.take n, ?_, ?_⟩
  · rw [rest_advance, List.append_assoc, List.take_append_drop]
    exact e
  · rw [place_advance, place, Place.behind_append]

theorem le_offset_advance (c : Cursor) (n : Nat) : c.offset ≤ (c.advance n).offset := by
  rw [offset_advance]
  omega

theorem on_start (src : List Symbol) : (Cursor.start src).On src := ⟨[], rfl, rfl⟩

end Cursor

/-! ## Extents -/

namespace Extent

/-- The extent lies in a source between two offsets. -/
structure Lies (src : List Symbol) (lo hi : Nat) (e : Extent) : Prop where
  start : e.start.In src
  stop : e.stop.In src
  lower : lo ≤ e.start.offset
  ordered : e.start.offset ≤ e.stop.offset
  upper : e.stop.offset ≤ hi

/-- The extent is the place of a text in a source. -/
def Spells (src : List Symbol) (e : Extent) (text : List Symbol) : Prop :=
  ∃ before, before ++ text <+: src ∧ e.start = .behind .origin before ∧ e.stop = .behind .origin (before ++ text)

variable {src : List Symbol} {lo hi lo' hi' : Nat} {e : Extent}

theorem Spells.isInfix {text : List Symbol} (h : e.Spells src text) : text <:+: src := by
  obtain ⟨before, front, -⟩ := h
  exact (List.suffix_append before text).isInfix.trans front.isInfix

theorem Lies.le (h : e.Lies src lo hi) : lo ≤ hi := by
  have := h.lower
  have := h.ordered
  have := h.upper
  omega

theorem Lies.mono (h : e.Lies src lo hi) (lower : lo' ≤ lo) (upper : hi ≤ hi') : e.Lies src lo' hi' :=
  { h with lower := lower.trans h.lower, upper := h.upper.trans upper }

/-- From a place to a cursor behind it. -/
theorem lies_of_on {start : Place} {c : Cursor} (start_in : start.In src) (on : c.On src)
    (le : start.offset ≤ c.offset) : Extent.Lies src start.offset c.offset ⟨start, c.place⟩ :=
  ⟨start_in, on.place_in, le_rfl, le, le_rfl⟩

end Extent

/-- The text between two cursors is what the first sees and the second does not. -/
theorem Cursor.On.spells {src : List Symbol} {c d : Cursor} (hc : c.On src) (hd : d.On src) (le : c.offset ≤ d.offset) :
    Extent.Spells src ⟨c.place, d.place⟩ (c.rest.take (c.rest.length - d.rest.length)) := by
  obtain ⟨before, e, place⟩ := hc
  obtain ⟨before', e', place'⟩ := hd
  rw [offset, offset, place, place', Place.offset_origin_behind, Place.offset_origin_behind] at le
  obtain ⟨text, rfl⟩ : before <+: before' :=
    Symbol.prefix_of_sizes_le (e ▸ List.prefix_append _ _) (e' ▸ List.prefix_append _ _) le
  have rest : c.rest = text ++ d.rest := by
    rw [e, List.append_assoc] at e'
    exact List.append_cancel_left e'
  have taken : c.rest.take (c.rest.length - d.rest.length) = text := by
    rw [rest, List.length_append, Nat.add_sub_cancel, List.take_left]
  rw [taken]
  exact ⟨before, e' ▸ List.prefix_append _ _, place, place'⟩

end IndexedLoop
