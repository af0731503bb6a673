import IndexedLoop.Number.Literal
import IndexedLoop.Proofs.Extents.Tree
import IndexedLoop.Proofs.Subtrees
import IndexedLoop.Text.Quoted

/-!
# Trees in their source

A subtree stands in a source (`Subtree.Stands`) if its span is that of an extent of the source, its children stand
inside of it, and a leaf has what the source says there. Other than the parts of a surface tree the children need
not follow one another: a shorthand property is its own key and its own value. But each starts no earlier than
all that the child before holds, so a visit meets what it meets in the order of the source
(`Subtree.Stands.events`).
-/

namespace IndexedLoop

/-- What a literal denotes is what its text says. -/
def Constant.Denoted (text : String) : Constant → Prop
  | .string raw => raw = Quoted.content text
  | .number value => NumberLiteral.read? text = some value ∧ text.endsWith "n" = false
  | .boolean value => text = if value then "true" else "false"
  | .regExp raw => raw = text
  | .null => text = "null"
  | .other kind raw => kind = "BigInt" ∧ raw = text ∧ text.endsWith "n" = true

/-- What a visit meets starts between two offsets. -/
def Event.Starts (lo hi : Nat) (event : Event) : Prop :=
  lo ≤ event.span.byteStart ∧ event.span.byteStart ≤ hi

instance : Widens Event.Starts :=
  ⟨fun h => h.1.trans h.2, fun h lower upper => ⟨lower.trans h.1, h.2.trans upper⟩⟩

theorem lined_starts {lo n : Nat} {events : List Event} (le : lo ≤ n)
    (h : ∀ event ∈ events, event.span.byteStart = n) : Lined Event.Starts lo n events := by
  induction events generalizing lo with
  | nil => exact .nil le
  | cons event events ih =>
    have start := h event (List.mem_cons_self ..)
    exact .cons ⟨start ▸ le, start.le⟩ (ih le_rfl fun e mem => h e (List.mem_cons_of_mem _ mem))

/-- What starts one behind the other starts in ascending order. -/
theorem Lined.pairwise_starts {lo hi : Nat} {events : List Event} (h : Lined Event.Starts lo hi events) :
    events.Pairwise fun a b => a.span.byteStart ≤ b.span.byteStart := by
  induction h with
  | nil le => exact .nil
  | cons first rest ih => exact .cons (fun _ mem => first.2.trans (rest.of_mem mem).1) ih

namespace Subtree

/-- A leaf has the text, or what the text denotes, that the source has at its extent. -/
def Faithful (src : List Symbol) (e : Extent) : Subtree → Prop
  | .identifier id => e.Spells src (Symbol.ofString id.name)
  | .expr (.literal lit) =>
    ∃ symbols text, e.Spells src symbols ∧ Symbol.toText symbols = .ok text ∧ lit.value.Denoted text
  | _ => True

/-- The subtree stands in a source. All that it holds starts between two offsets. -/
inductive Stands (src : List Symbol) (file : String) : Nat → Nat → Subtree → Prop
  | mk {lo last hi : Nat} {t : Subtree} {e : Extent} (span : t.span = e.toSpan file)
      (extent : e.Lies src lo e.stop.offset) (first : e.start.offset ≤ hi) (faithful : t.Faithful src e)
      (inside : ∀ child ∈ t.children, child.span.byteEnd ≤ e.stop.offset)
      (children : Lined (Stands src file) e.start.offset last t.children) (upper : last ≤ hi) : Stands src file lo hi t

variable {src : List Symbol} {file : String} {lo hi : Nat} {t u : Subtree}

instance : Widens (Stands src file) where
  le := fun ⟨_, extent, first, _, _, _, _⟩ => extent.lower.trans first
  mono := fun ⟨span, extent, first, faithful, inside, children, upper⟩ lower wider =>
    ⟨span, extent.mono lower le_rfl, first.trans wider, faithful, inside, children, upper.trans wider⟩

/-- What lies below a subtree of a source stands in the source too. -/
theorem Stands.within (h : t.Stands src file lo hi) (below : t.Within u) : ∃ lo hi, u.Stands src file lo hi := by
  induction below with
  | refl => exact ⟨lo, hi, h⟩
  | tail _ child ih =>
    obtain ⟨lo, hi, -, -, -, -, -, children, -⟩ := ih
    exact ⟨_, _, children.of_mem child⟩

/-- A visit meets what it meets in the order of the source. -/
theorem Stands.events (h : t.Stands src file lo hi) : Lined Event.Starts lo hi t.events := by
  -- `Stands` nests in `Lined`, which `induction` does not take: one motive is for a tree and one for a row of trees
  refine @Stands.rec src file (fun lo hi t _ => Lined Event.Starts lo hi t.events)
    (fun lo hi ts _ => Lined Event.Starts lo hi (ts.flatMap Subtree.events)) ?_ ?_ ?_ lo hi t h
  · intro lo last hi t e span extent first _ _ _ upper below
    have own : Lined Event.Starts lo e.start.offset t.visits := by
      refine lined_starts extent.lower fun event mem => ?_
      rw [span_of_mem_visits mem, span]
      rfl
    rw [events_eq]
    exact own.append (below.mono le_rfl upper)
  · exact fun le => .nil le
  · intro lo mid hi t ts _ _ here rest
    rw [List.flatMap_cons]
    exact here.append rest

/-- What a visit meets belongs to a subtree. -/
theorem Stands.visited (h : t.Stands src file lo hi) {event : Event} (mem : event ∈ t.events) :
    ∃ u, t.Within u ∧ event ∈ u.visits := by
  refine @Stands.rec src file (fun _ _ t _ => event ∈ t.events → ∃ u, t.Within u ∧ event ∈ u.visits)
    (fun _ _ ts _ => event ∈ ts.flatMap Subtree.events → ∃ t ∈ ts, ∃ u, t.Within u ∧ event ∈ u.visits)
    ?_ ?_ ?_ lo hi t h mem
  · intro _ _ _ t _ _ _ _ _ _ _ _ below mem
    rw [events_eq, List.mem_append] at mem
    rcases mem with mem | mem
    · exact ⟨t, .refl, mem⟩
    · obtain ⟨child, child_mem, u, within, visited⟩ := below mem
      exact ⟨u, .head child_mem within, visited⟩
  · exact fun _ mem => absurd mem List.not_mem_nil
  · intro _ _ _ t ts _ _ here rest mem
    rw [List.flatMap_cons, List.mem_append] at mem
    rcases mem with mem | mem
    · exact ⟨t, List.mem_cons_self .., here mem⟩
    · obtain ⟨t', mem', found⟩ := rest mem
      exact ⟨t', List.mem_cons_of_mem _ mem', found⟩

end Subtree

end IndexedLoop
