import IndexedLoop.Proofs.Origins
import IndexedLoop.Proofs.ReadFailures
import IndexedLoop.Proofs.RoundTrip.Program

/-!
# The holes of an array

An array of a source has an entry for each of its commas, which is a hole if no element stands in front of the comma,
and one more for an element behind the last comma (`Reading.holes_kept`). The text of an array is laid out so that its
entries come back: its commas and elements are the ones of the vector (`laid_elementsText`), a level that takes each
element reads them from the text (`reads_arrayTail_taken`), and an array is lowered entry by entry
(`Surface.Expr.lower_array_becomes`). What decides on the holes is the order of commas and elements alone
(`Listing.Fills.same_holes`).
-/

namespace IndexedLoop

open Parse Grammar

/-- Vectors of optional elements have the same length and the same holes. -/
def SameHoles {α β : Type} (es : List (Option α)) (es' : List (Option β)) : Prop :=
  es.length = es'.length ∧ es.map Option.isSome = es'.map Option.isSome

theorem SameHoles.trans {α β γ : Type} {es : List (Option α)} {es' : List (Option β)} {es'' : List (Option γ)}
    (h : SameHoles es es') (h' : SameHoles es' es'') : SameHoles es es'' :=
  ⟨h.1.trans h'.1, h.2.trans h'.2⟩

theorem sameHoles_of_isSome {α β : Type} {es : List (Option α)} {es' : List (Option β)}
    (h : es.map Option.isSome = es'.map Option.isSome) : SameHoles es es' :=
  ⟨by simpa using congrArg List.length h, h⟩

theorem sameHoles_of_forall₂ {α β : Type} {comes : α → β → Prop} {es : List (Option α)} {es' : List (Option β)}
    (h : List.Forall₂ (Option.Rel comes) es es') : SameHoles es' es := by
  refine sameHoles_of_isSome ?_
  induction h with
  | nil => rfl
  | cons first _ ih => cases first <;> exact congrArg (_ :: ·) ih

/-! ## Listings with the same commas -/

namespace Listing

variable {α β γ δ : Type}

theorem commas_eq_count (l : Listing α) : l.commas = (l.map ListPart.isComma).count true := by
  rw [commas, List.count, List.countP_map]
  congr 1
  funext part
  cases part <;> rfl

theorem endsInElement_eq_foldl (l : Listing α) :
    l.endsInElement = (l.map ListPart.isComma).foldl (fun _ isComma => !isComma) false := by
  rw [endsInElement, endsFrom, List.foldl_map]

/-- The commas tell which entries are empty, whatever the elements are. -/
theorem exists_comma_congr {l : Listing α} {l' : Listing β}
    (same : l.map ListPart.isComma = l'.map ListPart.isComma) {k : Nat}
    (h : ∃ before after : Listing α, l = before ++ .comma :: after ∧ before.commas = k ∧ before.endsInElement = false) :
    ∃ before after : Listing β, l' = before ++ .comma :: after ∧ before.commas = k ∧ before.endsInElement = false := by
  obtain ⟨before, after, rfl, count, ends⟩ := h
  rw [List.map_append, eq_comm, List.map_eq_append_iff] at same
  obtain ⟨before', rest, rfl, sameBefore, sameRest⟩ := same
  obtain ⟨part, after', rfl, isComma, -⟩ := List.map_eq_cons_iff.mp sameRest
  obtain rfl : part = .comma := by
    cases part with
    | comma => rfl
    | element b => cases isComma
  refine ⟨before', after', rfl, ?_, ?_⟩
  · rw [commas_eq_count, sameBefore, ← commas_eq_count, count]
  · rw [endsInElement_eq_foldl, sameBefore, ← endsInElement_eq_foldl, ends]

/-- Vectors of listings with the same commas have the same length and the same holes. -/
theorem Fills.same_holes {comes : α → γ → Prop} {comes' : β → δ → Prop} {l : Listing α} {l' : Listing β}
    {es : List (Option γ)} {es' : List (Option δ)} (h : l.Fills comes es) (h' : l'.Fills comes' es')
    (same : l.map ListPart.isComma = l'.map ListPart.isComma) : SameHoles es es' := by
  have length : es.length = es'.length := by
    rw [h.length, h'.length, commas_eq_count, endsInElement_eq_foldl, same, ← commas_eq_count, ← endsInElement_eq_foldl]
  refine ⟨length, List.ext_getElem (by simpa using length) fun k hk hk' => ?_⟩
  have holes : es[k]? = some none ↔ es'[k]? = some none :=
    (h.hole k).trans (Iff.trans ⟨exists_comma_congr same, exists_comma_congr same.symm⟩ (h'.hole k).symm)
  rw [List.length_map] at hk hk'
  rw [List.getElem?_eq_getElem hk, List.getElem?_eq_getElem hk', Option.some_inj, Option.some_inj] at holes
  rw [List.getElem_map, List.getElem_map, Bool.eq_iff_iff, Option.isSome_iff_ne_none, Option.isSome_iff_ne_none]
  exact not_congr holes

/-- The listing with these entries: a comma stands behind each but an element at the end. -/
def ofEntries : List (Option α) → Listing α
  | [] => []
  | [some a] => [.element a]
  | none :: es => .comma :: ofEntries es
  | some a :: es => .element a :: .comma :: ofEntries es

theorem entries_ofEntries (es : List (Option α)) : (ofEntries es).entries = es := by
  fun_induction ofEntries es with
  | case1 => rfl
  | case2 a => rfl
  | case3 es ih => exact congrArg (none :: ·) ih
  | case4 a es _ ih => exact congrArg (some a :: ·) ih

theorem forall₂_rel_eq (es : List (Option α)) : List.Forall₂ (Option.Rel Eq) es es := by
  rw [List.forall₂_same]
  intro x _
  cases x with
  | none => exact .none
  | some a => exact .some rfl

end Listing

/-! ## The text of an array -/

/-- The element stands in a text: its own text is not empty and comes first. -/
def Expr.Leads (e : Expr) (s t : List Symbol) : Prop := e.listed ≠ [] ∧ s = e.listed ++ t

theorem Expr.listed_ne_nil (e : Expr) (h : e.render.text ≠ "") : e.listed ≠ [] := by
  rw [listed, textIf]
  split
  · simp [inParens]
  · rw [text, Rendered.symbols, Symbol.ofString, ne_eq, List.map_eq_nil_iff, String.toList_eq_nil_iff]
    exact h

theorem laid_elementsText (es : List (Option Expr)) (visible : ∀ e, some e ∈ es → e.listed ≠ []) (t : List Symbol) :
    (Listing.ofEntries es).Laid Expr.Leads false (elementsText es ++ t) t := by
  have space (s : List Symbol) : Lexical.LeadsTo (.char ' ' :: s) s := .single (.blank (by decide))
  fun_induction Listing.ofEntries es with
  | case1 => exact .nil .refl
  | case2 e =>
    rw [elementsText_some]
    exact .element .refl ⟨visible e (by simp), rfl⟩ (.nil .refl)
  | case3 es ih =>
    have rest := ih fun e mem => visible e (by simp [mem])
    cases es with
    | nil => exact .comma .refl (.nil .refl)
    | cons x es =>
      rw [elementsText_cons]
      exact .comma .refl (rest.before (space _))
  | case4 e es more ih =>
    have rest := ih fun e mem => visible e (by simp [mem])
    cases es with
    | nil => exact absurd rfl more
    | cons x es =>
      rw [elementsText_cons, List.append_assoc]
      exact .element .refl ⟨visible e (by simp), rfl⟩ (.comma .refl (rest.before (space _)))

/-! ## Reading the text of an array -/

/-- The level reads the text as one element of a list: behind the opening bracket, or behind a comma and a blank, and in
front of a comma or the closing bracket. -/
def Level.Takes (g : Level) (text : List Symbol) : Prop :=
  ∀ (c : Cursor) (blank behind : List Symbol) (closer : Closer), blank = [] ∨ blank = [.char ' '] →
    closer = .comma ∨ closer = .bracket → c.At .plain (blank ++ (text ++ (Tail.closed closer behind).text)) →
    c.lexeme.isPunct "," = false ∧ c.lexeme.isPunct "]" = false ∧
      Reads (item g) c fun _ d => d.rest = (Tail.closed closer behind).text ∧ d.pending = []

theorem Cursor.At.starts_of_blank {c : Cursor} {blank s : List Symbol} (h : blank = [] ∨ blank = [.char ' '])
    (at_ : c.At .plain (blank ++ s)) (calm : Calm s) : c.Starts s := by
  rcases h with rfl | rfl
  · exact at_.starts
  · exact at_.starts.of_space calm

/-- Behind an element the comma or the bracket is seen, whatever the slot is. -/
theorem Cursor.meets_closer {d : Cursor} {closer : Closer} {behind : List Symbol}
    (mark : closer = .comma ∨ closer = .bracket) (rest : d.rest = (Tail.closed closer behind).text)
    (pending : d.pending = []) : d.Meets (.closed closer behind) := by
  refine ⟨rest, ?_⟩
  rw [← Tail.view_of _ d.slot]
  · exact (⟨rfl, rest, pending⟩ : d.At d.slot _).sees
  · rintro ⟨⟩
  · rcases mark with rfl | rfl <;> rintro ⟨⟩

section

variable {g : Level} {slot : Slot} {behind : List Symbol}

theorem entriesOf_cons {α : Type} (x : Option α) {l : List (Option α)} (h : l ≠ []) :
    x :: entriesOf l = entriesOf (x :: l) := by
  cases l with
  | nil => exact absurd rfl h
  | cons y l => rw [entriesOf]

theorem entriesOf_none {α : Type} (l : List (Option α)) : none :: entriesOf l = entriesOf (none :: l) := by
  cases l with
  | nil => rfl
  | cons y l => exact entriesOf_cons none (List.cons_ne_nil y l)

/-- The comma of a hole comes first, and a blank follows it unless it is the last one. -/
theorem elementsText_none (es : List (Option Expr)) : ∃ blank : List Symbol, (blank = [] ∨ blank = [.char ' ']) ∧
    elementsText (none :: es) = .char ',' :: (blank ++ elementsText es) := by
  cases es with
  | nil => exact ⟨[], .inl rfl, rfl⟩
  | cons x es => exact ⟨[.char ' '], .inr rfl, elementsText_cons none x es⟩

/-- An element is read, and what follows it tells whether the list goes on. -/
theorem reads_entriesIn_element {text : List Symbol} (takes : g.Takes text) {blank : List Symbol}
    (h : blank = [] ∨ blank = [.char ' ']) {closer : Closer} (mark : closer = .comma ∨ closer = .bracket) {c : Cursor}
    (at_ : c.At .plain (blank ++ (text ++ (Tail.closed closer behind).text))) {x : Symbol} {rounds : List Symbol}
    {post : List (Option Surface.Expr) → Cursor → Prop}
    (next : ∀ (e : Surface.Expr) (d : Cursor), d.Meets (.closed closer behind) →
      Reads (do
        if ← tryPunct "," .plain then
          return some e :: (← entriesIn g "]" slot rounds)
        else
          expect "]" slot
          return [some e]) d post) :
    Reads (entriesIn g "]" slot (x :: rounds)) c post := by
  obtain ⟨comma, close, reads⟩ := takes c blank behind closer h mark at_
  rw [entriesIn]
  simp only [reads_bind, reads_look, close, comma, Bool.false_eq_true, ↓reduceIte]
  refine reads.mono ?_
  rintro e d ⟨rest, pending⟩
  simpa only [reads_bind] using next e d (Cursor.meets_closer mark rest pending)

/-- The entries of an array are read from its text: what is printed for a hole is read as a hole. -/
theorem reads_entriesIn_taken {es : List (Option Expr)} (takes : ∀ e, some e ∈ es → g.Takes e.listed)
    (rounds : List Symbol) {blank : List Symbol} {c : Cursor} (h : blank = [] ∨ blank = [.char ' '])
    (enough : (elementsText es ++ .char ']' :: behind).length < rounds.length)
    (at_ : c.At .plain (blank ++ (elementsText es ++ .char ']' :: behind))) :
    Reads (entriesIn g "]" slot rounds) c fun list d =>
      d.At slot behind ∧ ∃ items, items.map Option.isSome = es.map Option.isSome ∧ list = entriesOf items := by
  induction es generalizing rounds blank c with
  | nil =>
    have starts : c.Starts (Tail.closed .bracket behind).text :=
      Tail.text_bracket behind ▸ at_.starts_of_blank h (Calm.of_char (c := ']') (by decide) (by decide) _)
    have sees := starts.tail (by simp [Tail.closed])
    have close : c.lexeme.isPunct "]" = true := sees.isPunct "]"
    cases rounds with
    | nil => simp at enough
    | cons x rounds =>
      simp only [entriesIn, reads_bind, reads_look, close, ↓reduceIte, reads_accept, reads_pure]
      exact ⟨sees.accept slot, [], rfl, rfl⟩
  | cons entry rest ih =>
    have ih := @ih fun e mem => takes e (List.mem_cons_of_mem _ mem)
    cases rounds with
    | nil => simp at enough
    | cons x rounds =>
      cases entry with
      | none =>
        obtain ⟨gap, hgap, text⟩ := elementsText_none rest
        rw [text, List.cons_append, List.append_assoc] at at_ enough
        have starts := at_.starts_of_blank h (Calm.of_char (c := ',') (by decide) (by decide) _)
        refine reads_entriesIn_comma (.inr rfl) starts fun d at_ => ?_
        have enough : (elementsText rest ++ .char ']' :: behind).length < rounds.length := by
          simp at enough ⊢
          omega
        refine (ih rounds hgap enough at_).mono ?_
        rintro list d' ⟨at_, items, same, rfl⟩
        exact ⟨at_, none :: items, congrArg (false :: ·) same, entriesOf_none items⟩
      | some e =>
        have taken : g.Takes e.listed := takes e (by simp)
        cases rest with
        | nil =>
          rw [elementsText_some, ← Tail.text_bracket] at at_
          refine reads_entriesIn_element taken h (.inr rfl) at_ fun s d meets => ?_
          have comma : d.lexeme.isPunct "," = false := meets.isPunct ","
          have close : d.lexeme.isPunct "]" = true := meets.isPunct "]"
          simp only [reads_bind, reads_tryPunct, comma, Bool.false_eq_true, ↓reduceIte, reads_expect, close, reads_pure,
            true_and]
          exact ⟨meets.accept slot, [some s], rfl, rfl⟩
        | cons y rest =>
          rw [elementsText_cons, List.append_assoc, List.cons_append, List.cons_append, ← Tail.text_comma] at at_
          refine reads_entriesIn_element taken h (.inl rfl) at_ fun s d meets => ?_
          have comma : d.lexeme.isPunct "," = true := meets.isPunct ","
          simp only [reads_bind, reads_tryPunct, comma, ↓reduceIte, reads_pure]
          have enough : (elementsText (y :: rest) ++ .char ']' :: behind).length < rounds.length := by
            simp [elementsText_cons] at enough ⊢
            omega
          refine (ih rounds (.inr rfl) enough (meets.accept .plain)).mono ?_
          rintro list d' ⟨at_, items, same, rfl⟩
          exact ⟨at_, some s :: items, congrArg (true :: ·) same, entriesOf_cons (some s) (by rintro rfl; cases same)⟩

/-- An array is read from its text with its holes. -/
theorem reads_arrayTail_taken {es : List (Option Expr)} (takes : ∀ e, some e ∈ es → g.Takes e.listed) {c : Cursor}
    (at_ : c.At .plain (elementsText es ++ .char ']' :: behind)) (start : Place) :
    Reads (arrayTail g start slot) c fun x d =>
      d.rest = behind ∧ ∃ items, x = .array ⟨start, d.place⟩ items ∧ SameHoles items es := by
  have enough : (elementsText es ++ .char ']' :: behind).length < (Symbol.char ' ' :: c.rest).length := by
    simp [at_.rest]
  simp only [arrayTail, entries, reads_bind, reads_rounds, reads_extentFrom, reads_pure]
  refine (reads_entriesIn_taken takes _ (.inl rfl) enough at_).mono ?_
  rintro list d ⟨at_, items, same, rfl⟩
  rw [withoutTrailing_entriesOf]
  exact ⟨at_.rest, items, rfl, sameHoles_of_isSome same⟩

end

/-- A level takes the texts of canonical expressions that are shorter than what it covers. -/
theorem Level.Covers.takes {rule : TargetRule} {g : Level} {n : Nat} (covers : g.Covers rule n) {e : Expr}
    (h : e.Canonical rule) (short : e.listed.length < n) : g.Takes e.listed := by
  intro c blank behind closer hblank mark at_
  have lead := Expr.lead_listed h (.closed closer behind) (by simp [Tail.closed])
  have starts := at_.starts_of_blank hblank lead.calm
  have other (sign : String) (hs : Token.isLead (.punct sign) = false) : c.lexeme.isPunct sign = false := by
    rw [Cursor.Sees.isPunct starts, beq_eq_false_iff_ne]
    exact Token.ne_of_isLead lead.isLead hs
  refine ⟨other "," (by decide), other "]" (by decide), ?_⟩
  refine (reads_item covers h (.listed e) short rfl starts).mono fun s d read => ?_
  exact ⟨read.2.rest, read.2.pending⟩

/-! ## Lowering -/

namespace Surface

variable {file : String} {fails : Located ReadError → Prop} {items : List (Option Surface.Expr)}

/-- An array is lowered entry by entry, and its lowering fails only as that of an element does. -/
theorem Expr.lower_array_becomes (h : ∀ item, some item ∈ items → (item.lower file).Ends (fun _ => True) fails)
    (extent : Extent) : ((array extent items).lower file).Ends (fun t => ∃ es, t = .array (extent.toSpan file) es ∧
      List.Forall₂ (Option.Rel (Becomes file)) items es) fails := by
  rw [lower]
  exact (lowerElements_becomes h).bind fun es same => Lower.ends_pure ⟨es, rfl, same⟩

/-- An array of a source is written as this listing: no comma of it stands in an element. -/
structure Program.Lists (p : Program) (src : List Symbol) (extent : Extent) (l : Listing Surface.Expr) : Prop where
  holds : p.Holds (.expr (.array extent l.entries))
  written : l.Written src extent
  single : ∀ e ∈ l.elements, e.isSequence = false

theorem Program.Lies.exists_lists {p : Program} {src : List Symbol} (lies : p.Lies src) {extent : Extent}
    (holds : p.Holds (.expr (.array extent items))) :
    ∃ l : Listing Surface.Expr, l.entries = items ∧ p.Lists src extent l := by
  obtain ⟨⟨l, written, rfl⟩, single⟩ := lies.faithful holds
  exact ⟨l, rfl, holds, written, written.reduceOption_entries ▸ single⟩

end Surface

/-- The level reads the text behind the opening bracket of an array up to the closing one. What it reads is lowered to
an array with the same length and the same holes as the entries, and the lowering fails only as that of an element
does. -/
def Level.Restores (g : Level) (text : List Symbol) (es : List (Option Expr)) : Prop :=
  ∀ (c : Cursor) (behind : List Symbol), c.At .plain (text ++ .char ']' :: behind) → ∀ (start : Place) (slot : Slot),
    Reads (arrayTail g start slot) c fun x d => d.rest = behind ∧ ∃ items, x = .array ⟨start, d.place⟩ items ∧
      ∀ (file : String) (fails : Located ReadError → Prop),
        (∀ item, some item ∈ items → (item.lower file).Ends (fun _ => True) fails) →
        (x.lower file).Ends (fun t => ∃ span es', t = .array span es' ∧ SameHoles es' es) fails

theorem Level.restores_elementsText {g : Level} {es : List (Option Expr)}
    (takes : ∀ e, some e ∈ es → g.Takes e.listed) : g.Restores (elementsText es) es := by
  intro c behind at_ start slot
  refine (reads_arrayTail_taken takes at_ start).mono ?_
  rintro x d ⟨rest, items, rfl, same⟩
  refine ⟨rest, items, rfl, fun file fails lowered => ?_⟩
  refine (Surface.Expr.lower_array_becomes lowered _).mono ?_ fun _ => id
  rintro t ⟨es', rfl, becomes⟩
  exact ⟨_, es', rfl, (sameHoles_of_forall₂ becomes).trans same⟩

/-! ## Arrays -/

namespace Reading

/-- Every array of a source is written in one way as commas and elements, with blanks and comments between them and with
no comma in an element. It is lowered to an array with an entry for each comma and one for an element behind the last
comma, the holes are the entries of the commas without an element, and the elements keep their order. The lowering fails
only as that of an element does, and every array of the program comes from such an array of the source. The other way
round, the commas and elements that are printed for a vector of optional elements have the length and the holes of the
vector: an array that is written with these commas and elements is lowered to such a vector. A level that reads the text
of each element as one element reads the whole text, and gives such a vector. -/
theorem holes_kept :
    (∀ {src : List Symbol} {p : Surface.Program}, Surface.Program.read? src = some p →
      (∀ {extent : Extent} {items : List (Option Surface.Expr)}, p.Holds (.expr (.array extent items)) →
        ∃ l : Listing Surface.Expr, l.entries = items ∧ p.Lists src extent l ∧
          (∀ l' : Listing Surface.Expr, l'.Written src extent → l'.elements = l.elements → l' = l) ∧
          ∀ {file : String} {fails : Located ReadError → Prop},
            (∀ e ∈ l.elements, (e.lower file).Ends (fun _ => True) fails) →
            ((Surface.Expr.array extent items).lower file).Ends
              (fun t => ∃ es, t = .array (extent.toSpan file) es ∧ l.Fills (Surface.Expr.Becomes file) es) fails) ∧
      ∀ {file : String} {span : Span} {es : List (Option Expr)},
        (Subtree.program (ofSurface file p).program).Within (.expr (.array span es)) →
        ∃ (extent : Extent) (l : Listing Surface.Expr), span = extent.toSpan file ∧ p.Lists src extent l ∧
          l.Fills (Surface.Expr.Becomes file) es) ∧
    ∀ (span : Span) {es : List (Option Expr)}, (∀ e, some e ∈ es → e.render.text ≠ "") →
      Symbol.ofString (Expr.array span es).render.text = .char '[' :: (elementsText es ++ [.char ']']) ∧
      (Listing.ofEntries es).Laid Expr.Leads false (elementsText es ++ [.char ']']) [.char ']'] ∧
      (∀ {file : String} {l : Listing Surface.Expr} {es' : List (Option Expr)},
        l.map ListPart.isComma = (Listing.ofEntries es).map ListPart.isComma →
        l.Fills (Surface.Expr.Becomes file) es' → SameHoles es' es) ∧
      ∀ {g : Level}, (∀ e, some e ∈ es → g.Takes e.listed) → g.Restores (elementsText es) es := by
  constructor
  · intro src p read
    have lies := Surface.Program.read_lies read
    constructor
    · intro extent items holds
      obtain ⟨l, rfl, lists⟩ := lies.exists_lists holds
      refine ⟨l, rfl, lists, fun l' written elements => written.unique lists.written elements, ?_⟩
      intro file fails lowered
      refine (Surface.Expr.lower_array_becomes (fun e mem => ?_) extent).mono ?_ fun _ => id
      · exact lowered e (lists.written.mem_elements.mpr mem)
      rintro t ⟨es, rfl, same⟩
      exact ⟨es, rfl, lists.written.fills same⟩
    · intro file span es within
      obtain ⟨extent, items, holds, span_eq, same⟩ := (shaped_ofSurface lies within).listed
      obtain ⟨l, rfl, lists⟩ := lies.exists_lists holds
      exact ⟨extent, l, span_eq, lists, lists.written.fills same⟩
  · intro span es visible
    have laid := laid_elementsText es (fun e mem => e.listed_ne_nil (visible e mem)) [.char ']']
    have fills : (Listing.ofEntries es).Fills Eq es := by
      refine laid.fills ?_
      rw [Listing.entries_ofEntries]
      exact Listing.forall₂_rel_eq es
    exact ⟨Expr.text_array' span es, laid, fun same filled => filled.same_holes fills same,
      Level.restores_elementsText⟩

/-- For each array of the program, which of its entries are no holes, in the order of a visit. -/
def filled (r : Reading) : List (List Bool) :=
  r.program.events.filterMap fun
    | .expr (.array _ es) => some (es.map Option.isSome)
    | _ => none

/-- A visit meets an array at the array. -/
theorem exists_within_of_mem_filled {r : Reading} {entries : List Bool} (h : entries ∈ r.filled) :
    ∃ span es, (Subtree.program r.program).Within (.expr (.array span es)) ∧ es.map Option.isSome = entries := by
  obtain ⟨event, mem, e⟩ := List.mem_filterMap.mp h
  split at e
  · next span es =>
    obtain ⟨t, within, visited⟩ := (Subtree.program r.program).exists_within_of_mem_events mem
    obtain rfl := Subtree.eq_of_expr_mem_visits visited
    exact ⟨span, es, within, Option.some.inj e⟩
  · cases e

/-- Holes at the start, in the middle and at the end of arrays, with commas in comments and in parentheses. -/
def exampleHoles : String := "x = [, a, /* , */ , (b, c) // ,\n, ];\n[[,], [1,], [], [...d, ,]];"

/-- A name between holes. -/
def exampleEntries : List (Option Expr) := [none, some (Expr.ident "a"), none]

/-- The commas and elements that are printed for them. -/
def exampleListing : Listing Surface.Expr := [.comma, .element (.name ⟨⟨.origin, .origin⟩, "a"⟩), .comma, .comma]

theorem holes_kept_exampleHoles :
    (∃ p, Surface.Program.read? (Symbol.ofString exampleHoles) = some p ∧
      (ofSurface "a.js" p).filled =
        [[false, true, false, true], [true, true, true, true], [false], [true], [], [true, false]] ∧
      ∃ extent l es, p.Lists (Symbol.ofString exampleHoles) extent l ∧ l.Fills (Surface.Expr.Becomes "a.js") es ∧
        es.map Option.isSome = [false, true, false, true] ∧
        ((Surface.Expr.array extent l.entries).lower "a.js").Ends
          (fun t => ∃ es', t = .array (extent.toSpan "a.js") es' ∧ l.Fills (Surface.Expr.Becomes "a.js") es')
          fun _ => True) ∧
    (Expr.array .none exampleEntries).render.text = "[, a, ,]" ∧
    (∃ es', exampleListing.Fills (Surface.Expr.Becomes "a.js") es' ∧ SameHoles es' exampleEntries) ∧
    (Level.at 2).Restores (Symbol.ofString ", a, ,") exampleEntries := by
  have accepted : (Surface.Program.read? (Symbol.ofString exampleHoles)).map (fun p => (ofSurface "a.js" p).filled) =
      some [[false, true, false, true], [true, true, true, true], [false], [true], [], [true, false]] := by
    decide +kernel
  obtain ⟨p, read, filled⟩ := Option.map_eq_some_iff.mp accepted
  have name (e : Expr) (mem : some e ∈ exampleEntries) : e = Expr.ident "a" := by simpa [exampleEntries] using mem
  have visible (e : Expr) (mem : some e ∈ exampleEntries) : e.render.text ≠ "" := by
    rw [name e mem]
    decide
  obtain ⟨-, -, same, restores⟩ := holes_kept.2 .none visible
  refine ⟨⟨p, read, filled, ?_⟩, by decide +kernel, ?_, restores fun e mem => ?_⟩
  · obtain ⟨span, es, within, entries⟩ := exists_within_of_mem_filled (filled ▸ List.mem_cons_self ..)
    obtain ⟨extent, l, -, lists, fills⟩ := (holes_kept.1 read).2 within
    obtain ⟨l', entries', lists', unique, lowered⟩ := (holes_kept.1 read).1 lists.holds
    have elements : l.elements = l'.elements := by
      rw [← lists.written.reduceOption_entries, ← lists'.written.reduceOption_entries, entries']
    obtain rfl : l = l' := unique l lists.written elements
    exact ⟨extent, l, es, lists, fills, entries, lowered fun _ _ => Lower.ends_trivial⟩
  · have laid : exampleListing.Laid (fun _ s t => s = .char 'a' :: t) false (Symbol.ofString ",a,,]") [.char ']'] :=
      .comma .refl (.element .refl rfl (.comma .refl (.comma .refl (.nil .refl))))
    have becomes : ∃ es', List.Forall₂ (Option.Rel (Surface.Expr.Becomes "a.js")) exampleListing.entries es' :=
      ⟨_, .cons .none (.cons (.some ⟨[], rfl⟩) (.cons .none .nil))⟩
    obtain ⟨es', becomes⟩ := becomes
    exact ⟨es', laid.fills becomes, same rfl (laid.fills becomes)⟩
  · rw [name e mem]
    have canonical : (Expr.ident "a").Canonical definedTarget := ⟨.of_chars (by decide), by decide⟩
    exact (Level.covers_at 2).takes canonical (by decide)

end Reading

end IndexedLoop
