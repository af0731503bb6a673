import IndexedLoop.Proofs.Extents.Blanks
import IndexedLoop.Surface.Basic

/-!
# Commas and elements in a row

What stands between the brackets of an array is a listing: commas and elements, with blanks and comments around
them and at most one element between two commas (`Listing.Laid`). Once it is known where the elements stand, a text is
laid out as one listing only (`Listing.Laid.unique`). The entries of a listing are what stands in front of each comma,
which may be nothing, and what stands behind the last one, if anything does (`Listing.entries`). How many there are,
and which are empty, can be told from the commas (`Listing.Fills`).
-/

namespace IndexedLoop

/-- A comma, or an element between commas. -/
inductive ListPart (α : Type) where
  | comma
  | element (a : α)
deriving DecidableEq, Repr

namespace ListPart

variable {α : Type}

def isComma : ListPart α → Bool
  | .comma => true
  | .element _ => false

def element? : ListPart α → Option α
  | .comma => none
  | .element a => some a

end ListPart

/-- Commas and elements in the order of the text. -/
abbrev Listing (α : Type) := List (ListPart α)

namespace Listing

variable {α β : Type}

/-! ## Entries -/

/-- The number of commas. -/
def commas (l : Listing α) : Nat := l.countP ListPart.isComma

/-- The elements. -/
def elements (l : Listing α) : List α := l.filterMap ListPart.element?

/-- An element stands behind the last comma, or behind the start if there is no comma. There `taken` says whether one
stood before. -/
def endsFrom (taken : Bool) (l : Listing α) : Bool := l.foldl (fun _ part => !part.isComma) taken

/-- An element stands behind the last comma. -/
def endsInElement (l : Listing α) : Bool := l.endsFrom false

/-- What stands in front of each comma, and what stands behind the last one unless it is nothing. The element that
was read since the comma before is kept until a comma or the end comes. -/
def entriesFrom (current : Option α) : Listing α → List (Option α)
  | [] => current.toList.map some
  | .comma :: l => current :: entriesFrom none l
  | .element a :: l => entriesFrom (some a) l

/-- The entries of a listing. -/
def entries (l : Listing α) : List (Option α) := l.entriesFrom none

section

variable (a : α) (l : Listing α)

@[simp]
theorem commas_nil : commas ([] : Listing α) = 0 := rfl

@[simp]
theorem commas_comma : commas (.comma :: l) = commas l + 1 := List.countP_cons_of_pos rfl

@[simp]
theorem commas_element : commas (.element a :: l) = commas l := List.countP_cons_of_neg (by simp [ListPart.isComma])

@[simp]
theorem elements_nil : elements ([] : Listing α) = [] := rfl

@[simp]
theorem elements_comma : elements (.comma :: l) = elements l := rfl

@[simp]
theorem elements_element : elements (.element a :: l) = a :: elements l := rfl

@[simp]
theorem endsFrom_nil (taken : Bool) : endsFrom taken ([] : Listing α) = taken := rfl

@[simp]
theorem endsFrom_comma (taken : Bool) : endsFrom taken (.comma :: l) = endsFrom false l := rfl

@[simp]
theorem endsFrom_element (taken : Bool) : endsFrom taken (.element a :: l) = endsFrom true l := rfl

end

/-- A vector of optional elements is what a listing says: it has an entry for each comma, and one more if an element
follows the last comma. An entry is empty exactly if no element stands in front of its comma and behind the comma
before. The elements come from those of the listing, in their order. -/
structure Fills (comes : α → β → Prop) (l : Listing α) (es : List (Option β)) : Prop where
  length : es.length = l.commas + if l.endsInElement then 1 else 0
  hole (k : Nat) : es[k]? = some none ↔
    ∃ before after : Listing α, l = before ++ .comma :: after ∧ before.commas = k ∧ before.endsInElement = false
  order : List.Forall₂ comes l.elements es.reduceOption

theorem length_entriesFrom (current : Option α) (l : Listing α) :
    (entriesFrom current l).length = l.commas + if l.endsFrom current.isSome then 1 else 0 := by
  induction l generalizing current with
  | nil => cases current <;> rfl
  | cons part l ih =>
    cases part with
    | comma =>
      rw [entriesFrom, List.length_cons, ih, commas_comma, Nat.add_right_comm]
      rfl
    | element a =>
      rw [entriesFrom, ih, commas_element]
      rfl

/-- What stands in front of a comma is empty if nothing was kept and no element came. -/
theorem hole_entriesFrom (current : Option α) (l : Listing α) (k : Nat) : (entriesFrom current l)[k]? = some none ↔
    ∃ before after : Listing α, l = before ++ .comma :: after ∧ before.commas = k ∧
      before.endsFrom current.isSome = false := by
  induction l generalizing current k with
  | nil => cases current <;> simp [entriesFrom, List.getElem?_singleton]
  | cons part l ih =>
    cases part with
    | comma =>
      cases k with
      | zero =>
        constructor
        · intro h
          obtain rfl : current = none := by simpa [entriesFrom] using h
          exact ⟨[], l, rfl, rfl, rfl⟩
        · rintro ⟨before, after, split, none, ends⟩
          cases before with
          | nil =>
            obtain rfl : current = .none := by simpa using ends
            rfl
          | cons part before =>
            obtain rfl : part = .comma := (List.cons.inj split).1.symm
            simp at none
      | succ k =>
        rw [entriesFrom, List.getElem?_cons_succ, ih]
        constructor
        · rintro ⟨before, after, rfl, count, ends⟩
          exact ⟨.comma :: before, after, rfl, by simp [count], ends⟩
        · rintro ⟨before, after, split, count, ends⟩
          cases before with
          | nil => cases count
          | cons part before =>
            obtain ⟨rfl, rfl⟩ := List.cons.inj split
            exact ⟨before, after, rfl, by simpa using count, ends⟩
    | element a =>
      rw [entriesFrom, ih]
      constructor
      · rintro ⟨before, after, rfl, count, ends⟩
        exact ⟨.element a :: before, after, rfl, by simp [count], ends⟩
      · rintro ⟨before, after, split, count, ends⟩
        cases before with
        | nil => cases split
        | cons part before =>
          obtain ⟨rfl, rfl⟩ := List.cons.inj split
          exact ⟨before, after, rfl, by simpa using count, ends⟩

section

variable {comes : α → β → Prop} {es : List (Option α)} {es' : List (Option β)}
  (same : List.Forall₂ (Option.Rel comes) es es')
include same

theorem hole_iff_of_forall₂ (k : Nat) : es'[k]? = some none ↔ es[k]? = some none := by
  induction same generalizing k with
  | nil => simp
  | cons first _ ih =>
    cases k with
    | zero => cases first <;> simp
    | succ k => exact ih k

theorem forall₂_reduceOption : List.Forall₂ comes es.reduceOption es'.reduceOption := by
  induction same with
  | nil => exact .nil
  | cons first _ ih =>
    cases first with
    | none => exact ih
    | some first => exact .cons first ih

end

/-! ## Layout -/

/-- The text is laid out as commas and elements up to a later text, with blanks and comments in front of each of them
and at the end. Where an element was `taken`, a comma has to come before the next one. -/
inductive Laid (stands : α → List Symbol → List Symbol → Prop) : Bool → List Symbol → Listing α → List Symbol → Prop
  | nil {taken : Bool} {s t : List Symbol} (blanks : Lexical.LeadsTo s t) : Laid stands taken s [] t
  | comma {taken : Bool} {s t u : List Symbol} {l : Listing α} (blanks : Lexical.LeadsTo s (.char ',' :: t))
      (rest : Laid stands false t l u) : Laid stands taken s (.comma :: l) u
  | element {s t u v : List Symbol} {a : α} {l : Listing α} (blanks : Lexical.LeadsTo s t) (here : stands a t u)
      (rest : Laid stands true u l v) : Laid stands false s (.element a :: l) v

variable {stands : α → List Symbol → List Symbol → Prop} {taken taken' : Bool} {s t u v : List Symbol}
  {l l' : Listing α}

theorem Laid.before (h : Laid stands taken t l u) (blanks : Lexical.LeadsTo s t) : Laid stands taken s l u := by
  cases h with
  | nil more => exact .nil (blanks.trans more)
  | comma more rest => exact .comma (blanks.trans more) rest
  | element more here rest => exact .element (blanks.trans more) here rest

/-- At most one element stands between two commas, so that none is lost among the entries. -/
theorem Laid.elements_entriesFrom (h : Laid stands taken s l t) {current : Option α}
    (free : taken = false → current = none) :
    (entriesFrom current l).reduceOption = current.toList ++ l.elements := by
  induction h generalizing current with
  | nil => cases current <;> rfl
  | comma _ _ ih =>
    rw [entriesFrom, elements_comma]
    cases current with
    | none => exact ih fun _ => rfl
    | some a => exact congrArg (a :: ·) (ih fun _ => rfl)
  | element _ _ _ ih =>
    rw [free rfl, entriesFrom, ih fun e => absurd e (by decide)]
    rfl

theorem Laid.reduceOption_entries (h : Laid stands false s l t) : l.entries.reduceOption = l.elements :=
  h.elements_entriesFrom fun _ => rfl

/-- A vector that comes from the entries, element by element, is what the listing says. -/
theorem Laid.fills (h : Laid stands false s l t) {comes : α → β → Prop} {es : List (Option β)}
    (same : List.Forall₂ (Option.Rel comes) l.entries es) : Fills comes l es where
  length := same.length_eq ▸ length_entriesFrom none l
  hole k := (hole_iff_of_forall₂ same k).trans (hole_entriesFrom none l k)
  order := h.reduceOption_entries ▸ forall₂_reduceOption same

/-- The first element stands no earlier than the text. -/
theorem Laid.exists_stands (h : Laid stands taken s l v) {a : α} {as : List α} (first : l.elements = a :: as) :
    ∃ t u, stands a t u ∧ t.length ≤ s.length := by
  induction h with
  | nil => cases first
  | comma blanks _ ih =>
    obtain ⟨t, u, here, le⟩ := ih first
    have := blanks.length_le
    exact ⟨t, u, here, le.trans (by simp at this; omega)⟩
  | element blanks here =>
    obtain ⟨rfl, -⟩ := List.cons.inj first
    exact ⟨_, _, here, blanks.length_le⟩

/-- An element that stands behind a comma does not stand where the blanks before the comma lead to. -/
theorem Laid.not_stands (functional : ∀ a t u t' u', stands a t u → stands a t' u' → t = t' ∧ u = u')
    (blanks : Lexical.LeadsTo s (.char ',' :: t)) (rest : Laid stands false t l v) {a : α} {as : List α}
    (first : l.elements = a :: as) {t' u' : List Symbol} (blanks' : Lexical.LeadsTo s t') : ¬stands a t' u' := by
  intro here'
  obtain ⟨t₁, u₁, here, le⟩ := rest.exists_stands first
  obtain ⟨rfl, -⟩ := functional _ _ _ _ _ here here'
  have := (blanks.leadsTo_char (by decide) (by decide) blanks').length_le
  simp only [List.length_cons] at this
  omega

/-- A text up to a closing bracket is laid out as one listing only, if each element can stand at one place only. -/
theorem Laid.unique (functional : ∀ a t u t' u', stands a t u → stands a t' u' → t = t' ∧ u = u')
    (h : Laid stands taken s l (.char ']' :: v)) {w : List Symbol} (h' : Laid stands taken' s l' (.char ']' :: w))
    (same : l.elements = l'.elements) : l = l' := by
  generalize close : Symbol.char ']' :: v = stop at h
  induction h generalizing taken' l' with
  | nil blanks =>
    subst close
    cases h' with
    | nil => rfl
    | comma blanks' => exact absurd (blanks.char_unique blanks' (by decide)).1 (by decide)
    | element => cases same
  | comma blanks rest ih =>
    cases h' with
    | nil blanks' => exact absurd (blanks.char_unique blanks' (by decide)).1 (by decide)
    | comma blanks' rest' =>
      obtain ⟨-, rfl⟩ := blanks.char_unique blanks' (by decide)
      rw [ih rest' same close]
    | element blanks' here' => exact absurd here' (rest.not_stands functional blanks same blanks')
  | element blanks here rest ih =>
    cases h' with
    | nil => cases same
    | comma blanks' rest' => exact absurd here (rest'.not_stands functional blanks' same.symm blanks)
    | element blanks' here' rest' =>
      obtain ⟨rfl, others⟩ := List.cons.inj same
      obtain ⟨-, rfl⟩ := functional _ _ _ _ _ here here'
      rw [ih rest' others close]

end Listing

/-! ## Listings of a source -/

/-- The place lies in a source, in front of the rest of it. -/
def Place.Faces (src : List Symbol) (p : Place) (rest : List Symbol) : Prop :=
  ∃ before, src = before ++ rest ∧ p = .behind .origin before

theorem Place.Faces.unique {src s t : List Symbol} {p : Place} (hs : p.Faces src s) (ht : p.Faces src t) : s = t := by
  obtain ⟨before, rfl, rfl⟩ := hs
  obtain ⟨before', split, place⟩ := ht
  have sizes : Symbol.sizes before = Symbol.sizes before' := by
    rw [← offset_origin_behind, place, offset_origin_behind]
  have starts : before <+: before ++ s := List.prefix_append _ _
  have starts' : before' <+: before ++ s := split ▸ List.prefix_append _ _
  obtain ⟨more, rfl⟩ := Symbol.prefix_of_sizes_le starts starts' sizes.le
  obtain rfl : more = [] := Symbol.eq_nil_of_sizes (by rw [Symbol.sizes_append] at sizes; omega)
  rw [List.append_nil] at split
  exact List.append_cancel_left split

/-- A punctuation token faces its sign. -/
theorem Cursor.On.faces_punct {src : List Symbol} {c : Cursor} (h : c.On src) {mark : String}
    (token : c.lexeme.token = .punct mark) (other : mark ≠ "?") :
    c.lexeme.start.place.Faces src (Symbol.ofString mark ++ c.lexeme.stop.rest) := by
  have start : c.lexeme.start.rest = Symbol.ofString mark ++ c.lexeme.stop.rest := start_lexemeIn _ token other
  exact start ▸ h.lexeme.start

/-- The expression stands in a source from where the one text is left up to where the other is. -/
def Surface.Expr.Between (src : List Symbol) (e : Surface.Expr) (s t : List Symbol) : Prop :=
  e.extent.start.Faces src s ∧ e.extent.stop.Faces src t

namespace Listing

variable {src : List Symbol} {extent : Extent} {l l' : Listing Surface.Expr}

/-- An array of a source is written this way: its extent starts with a bracket, the commas and elements follow, and it
ends with a bracket. -/
def Written (src : List Symbol) (extent : Extent) (l : Listing Surface.Expr) : Prop :=
  ∃ s t, extent.start.Faces src (.char '[' :: s) ∧ extent.stop.Faces src t ∧
    l.Laid (Surface.Expr.Between src) false s (.char ']' :: t)

/-- The places of the elements tell how an array is written. -/
theorem Written.unique (h : l.Written src extent) (h' : l'.Written src extent) (same : l.elements = l'.elements) :
    l = l' := by
  obtain ⟨s, t, start, -, laid⟩ := h
  obtain ⟨s', t', start', -, laid'⟩ := h'
  obtain ⟨-, rfl⟩ := List.cons.inj (start.unique start')
  refine laid.unique (fun _ _ _ _ _ here here' => ?_) laid' same
  exact ⟨here.1.unique here'.1, here.2.unique here'.2⟩

theorem Written.reduceOption_entries (h : l.Written src extent) : l.entries.reduceOption = l.elements := by
  obtain ⟨_, _, -, -, laid⟩ := h
  exact laid.reduceOption_entries

theorem Written.mem_elements (h : l.Written src extent) {e : Surface.Expr} : e ∈ l.elements ↔ some e ∈ l.entries := by
  rw [← h.reduceOption_entries, List.reduceOption_mem_iff]

theorem Written.fills {β : Type} (h : l.Written src extent) {comes : Surface.Expr → β → Prop} {es : List (Option β)}
    (same : List.Forall₂ (Option.Rel comes) l.entries es) : Fills comes l es := by
  obtain ⟨_, _, -, -, laid⟩ := h
  exact laid.fills same

end Listing

end IndexedLoop
