import IndexedLoop.Proofs.RoundTrip.Covers

/-!
# Lists between brackets

The entries of a list are read as they are written (`reads_entriesIn`). The reader gives one entry for
each comma and one more, so a list whose last element is a hole has a comma of its own, and an empty list
has an empty entry.
-/

namespace IndexedLoop

open Lexical Parse Grammar

/-! ## Texts -/

/-- The elements of a list, and a comma behind a last hole. -/
def elementsText (es : List (Option Expr)) : List Symbol :=
  joined (es.map elementText) ++ if es.getLast?.any Option.isNone then [.char ','] else []

theorem elementsText_hole : elementsText [none] = [.char ','] := by
  simp [elementsText, joined, elementText]

theorem elementsText_some (e : Expr) : elementsText [some e] = e.listed := by
  simp [elementsText, joined, elementText]

theorem elementsText_cons (x y : Option Expr) (rest : List (Option Expr)) :
    elementsText (x :: y :: rest) = elementText x ++ .char ',' :: .char ' ' :: elementsText (y :: rest) := by
  simp [elementsText, joined]

theorem Expr.text_array' (span : Span) (es : List (Option Expr)) :
    (array span es).text = .char '[' :: (elementsText es ++ [Symbol.char ']']) := by
  rw [text_array, elementsText]

/-- The arguments of a call are elements without holes. -/
theorem joined_listed (es : List Expr) : joined (es.map Expr.listed) = elementsText (es.map some) := by
  have last : (es.map some).getLast?.any Option.isNone = false := by
    rw [List.getLast?_map]
    cases es.getLast? <;> rfl
  rw [elementsText, last, List.map_map]
  simp [Function.comp_def, elementText]

theorem length_le_joined {s : List Symbol} {l : List (List Symbol)} (h : s ∈ l) :
    s.length ≤ (joined l).length := by
  fun_induction joined l with
  | case1 => cases h
  | case2 s' =>
    rw [List.mem_singleton.mp h]
  | case3 s' rest some ih =>
    rcases List.mem_cons.mp h with rfl | h
    · simp
    · have := ih h
      simp
      omega

theorem length_le_elementsText {e : Option Expr} {es : List (Option Expr)} (h : e ∈ es) :
    (elementText e).length ≤ (elementsText es).length := by
  have := length_le_joined (List.mem_map_of_mem (f := elementText) h)
  rw [elementsText, List.length_append]
  omega

variable {rule : TargetRule}

theorem canonicalElements_some {es : List Expr} (h : canonicalExprs rule es) :
    canonicalElements rule (es.map some) := by
  induction es with
  | nil => trivial
  | cons e es ih => exact ⟨h.1, ih h.2⟩

theorem Expr.lead_listed {e : Expr} (h : e.Canonical rule) (t : Tail) (dot : t.mark ≠ .dot) :
    Lead t.mark (e.listed ++ t.text) :=
  (Written.listed e).lead h t dot

/-- The text of the elements is calm, and so is what closes an empty list. -/
theorem calm_elementsText (es : List (Option Expr)) (h : canonicalElements rule es) (t : Tail)
    (mark : t.mark = .close .paren ∨ t.mark = .close .bracket) : Calm (elementsText es ++ t.text) := by
  have comma (s : List Symbol) : Calm (.char ',' :: s) := Calm.of_char (by decide) (by decide) s
  have dot : t.mark ≠ .dot := by rcases mark with e | e <;> simp [e]
  match es with
  | [] =>
    have calm := Mark.calm t.fits (by rcases mark with e | e <;> simp [e]) (by rcases mark with e | e <;> simp [e])
    have gap : t.mark.gap = [] := by rcases mark with e | e <;> simp [e, Mark.gap]
    simpa [elementsText, joined, Tail.text, Tail.body, gap] using calm
  | [none] =>
    rw [elementsText_hole]
    exact comma _
  | [some e] =>
    rw [elementsText_some]
    exact (Expr.lead_listed h.1 t dot).calm
  | none :: y :: rest =>
    rw [elementsText_cons]
    exact comma _
  | some e :: y :: rest =>
    have := (Expr.lead_listed h.1 (.closed .comma (.char ' ' :: (elementsText (y :: rest) ++ t.text)))
      (by simp [Tail.closed])).calm
    rw [elementsText_cons]
    simpa [Tail.text_comma, elementText] using this

/-! ## Entries -/

/-- The entries that the reader finds in the text of a list. -/
def entriesOf {α : Type} : List (Option α) → List (Option α)
  | [] => [none]
  | [none] => [none, none]
  | [some a] => [some a]
  | x :: y :: rest => x :: entriesOf (y :: rest)

theorem withoutTrailing_entriesOf {α : Type} (l : List (Option α)) :
    Surface.withoutTrailing (entriesOf l) = l := by
  fun_induction entriesOf l with
  | case1 => rfl
  | case2 => rfl
  | case3 a => rfl
  | case4 x y rest ih =>
    have some : entriesOf (y :: rest) ≠ [] := by
      cases y <;> cases rest <;> simp [entriesOf]
    rw [Surface.withoutTrailing, ih]
    rintro rfl
    exact fun e => absurd e some

theorem filterMap_entriesOf {α : Type} (l : List (Option α)) :
    (entriesOf l).filterMap id = l.filterMap id := by
  fun_induction entriesOf l with
  | case1 => rfl
  | case2 => rfl
  | case3 a => rfl
  | case4 x y rest ih => rw [List.filterMap_cons, ih, ← List.filterMap_cons]

section

variable {g : Level} {n : Nat} (covers : g.Covers rule n)

include covers

theorem reads_item {e : Expr} (h : e.Canonical rule) {text : List Symbol} (written : e.Written text)
    (short : text.length < n) {t : Tail} {c : Cursor} (close : t.mark.isClose = true)
    (starts : c.Starts (text ++ t.text)) : Reads (item g) c fun s d => s.Stands e ∧ d.Meets t := by
  have lead := written.lead h t (by rintro e; simp [e, Mark.isClose] at close)
  have spread : c.lexeme.isPunct "..." = false := by
    rw [Cursor.Sees.isPunct starts, beq_eq_false_iff_ne]
    exact Token.ne_of_isLead lead.isLead (by decide)
  simp only [item, reads_bind, reads_look, spread, Bool.false_eq_true, ↓reduceIte]
  exact covers.expr h written short close ⟨fun _ => rfl, fun e => by cases e⟩ rfl starts

omit covers in
/-- A comma is read as the end of an empty entry. -/
theorem reads_entriesIn_comma {closer : Closer} (mark : closer = .paren ∨ closer = .bracket) {slot : Slot}
    {s : List Symbol} {c : Cursor} (starts : c.Starts (.char ',' :: s)) {x : Symbol} {rounds : List Symbol}
    {post : List (Option Surface.Expr) → Cursor → Prop}
    (next : ∀ d : Cursor, d.At .plain s →
      Reads (entriesIn g closer.sign slot rounds) d fun l d => post (none :: l) d) :
    Reads (entriesIn g closer.sign slot (x :: rounds)) c post := by
  rw [← Tail.text_comma] at starts
  have sees := starts.tail (by simp [Tail.closed])
  have comma : c.lexeme.isPunct "," = true := sees.isPunct ","
  have close : c.lexeme.isPunct closer.sign = false := by
    rw [sees.isPunct]
    rcases mark with rfl | rfl <;> rfl
  simp only [entriesIn, reads_bind, reads_look, close, Bool.false_eq_true, comma, ↓reduceIte, reads_accept,
    reads_pure]
  exact next _ (sees.accept .plain)

/-- An entry is read, and what follows it tells whether the list goes on. -/
theorem reads_entriesIn_item {closer : Closer} (mark : closer = .paren ∨ closer = .bracket) {slot : Slot}
    {e : Expr} (h : e.Canonical rule) {text : List Symbol} (written : e.Written text)
    (short : text.length < n) {t : Tail} {c : Cursor} (close : t.mark.isClose = true)
    (starts : c.Starts (text ++ t.text)) {x : Symbol} {rounds : List Symbol} {post : List (Option Surface.Expr) → Cursor → Prop}
    (next : ∀ (s : Surface.Expr) (d : Cursor), s.Stands e → d.Meets t →
      Reads (do
        if ← tryPunct "," .plain then
          return some s :: (← entriesIn g closer.sign slot rounds)
        else
          expect closer.sign slot
          return [some s]) d post) :
    Reads (entriesIn g closer.sign slot (x :: rounds)) c post := by
  have lead := written.lead h t (by rintro e; simp [e, Mark.isClose] at close)
  have comma : c.lexeme.isPunct "," = false := by
    rw [Cursor.Sees.isPunct starts, beq_eq_false_iff_ne]
    exact Token.ne_of_isLead lead.isLead (by decide)
  have bracket : c.lexeme.isPunct closer.sign = false := by
    rw [Cursor.Sees.isPunct starts, beq_eq_false_iff_ne]
    exact Token.ne_of_isLead lead.isLead (by rcases mark with rfl | rfl <;> decide)
  rw [entriesIn]
  simp only [reads_bind, reads_look, comma, bracket, Bool.false_eq_true, ↓reduceIte]
  refine (reads_item covers h written short close starts).mono fun s d read => ?_
  simpa only [reads_bind] using next s d read.1 read.2

/-- The last entry is read with the closing bracket. -/
theorem reads_entriesIn_last {closer : Closer} (mark : closer = .paren ∨ closer = .bracket) {slot : Slot}
    {e : Expr} (h : e.Canonical rule) {text : List Symbol} (written : e.Written text)
    (short : text.length < n) {behind : List Symbol} {c : Cursor}
    (starts : c.Starts (text ++ (Tail.closed closer behind).text)) {x : Symbol} {rounds : List Symbol} :
    Reads (entriesIn g closer.sign slot (x :: rounds)) c fun l d =>
      ∃ s, s.Stands e ∧ l = [some s] ∧ d.At slot behind := by
  refine reads_entriesIn_item covers mark h written short rfl starts fun s d stands meets => ?_
  have comma : d.lexeme.isPunct "," = false := by
    rw [meets.isPunct]
    rcases mark with rfl | rfl <;> rfl
  have close : d.lexeme.isPunct closer.sign = true := by
    rw [meets.isPunct]
    exact beq_self_eq_true _
  simp only [reads_tryPunct, comma, Bool.false_eq_true, ↓reduceIte, reads_bind, reads_expect, close,
    reads_pure, true_and]
  exact ⟨s, stands, rfl, meets.accept slot⟩

/-- The entries of a list are read up to its closing bracket. -/
theorem reads_entriesIn {closer : Closer} (mark : closer = .paren ∨ closer = .bracket) (slot : Slot)
    (behind : List Symbol) : (es : List (Option Expr)) → canonicalElements rule es →
    (∀ e ∈ es, (elementText e).length < n) → (rounds : List Symbol) → (c : Cursor) →
    (elementsText es ++ (Tail.closed closer behind).text).length < rounds.length →
    c.Starts (elementsText es ++ (Tail.closed closer behind).text) →
    Reads (entriesIn g closer.sign slot rounds) c fun l d =>
      ∃ ss, List.Forall₂ Surface.Expr.ElementStands ss es ∧ l = entriesOf ss ∧ d.At slot behind
  | _, _, _, [], _, enough, _ => by simp at enough
  | [], _, _, x :: rounds, c, _, starts => by
    have sees := Cursor.Starts.tail (t := .closed closer behind) starts (by simp [Tail.closed])
    have close : c.lexeme.isPunct closer.sign = true := by
      rw [sees.isPunct]
      exact beq_self_eq_true _
    simp only [entriesIn, reads_bind, reads_look, close, ↓reduceIte, reads_accept, reads_pure]
    exact ⟨[], .nil, rfl, sees.accept slot⟩
  | [none], _, _, x :: rounds, c, enough, starts => by
    rw [elementsText_hole] at starts enough
    refine reads_entriesIn_comma mark starts fun d at_ => ?_
    have enough' : (elementsText [] ++ (Tail.closed closer behind).text).length < rounds.length := by
      simp [elementsText, joined] at enough ⊢
      omega
    refine (reads_entriesIn mark slot behind [] trivial (by simp) rounds d enough' at_.starts).mono ?_
    rintro l d' ⟨ss, stand, rfl, at_⟩
    cases stand
    exact ⟨[none], .cons trivial .nil, rfl, at_⟩
  | none :: y :: rest, h, short, x :: rounds, c, enough, starts => by
    rw [elementsText_cons] at starts enough
    refine reads_entriesIn_comma mark starts fun d at_ => ?_
    have calm := calm_elementsText (y :: rest) h (.closed closer behind) (by simpa [Tail.closed] using mark)
    have enough' : (elementsText (y :: rest) ++ (Tail.closed closer behind).text).length < rounds.length := by
      simp [elementText] at enough ⊢
      omega
    refine (reads_entriesIn mark slot behind (y :: rest) h (fun e he => short e (by simp [he])) rounds d enough'
      (at_.starts.of_space calm)).mono ?_
    rintro l d' ⟨ss, stand, rfl, at_⟩
    cases stand with
    | cons first others => exact ⟨none :: _, .cons trivial (.cons first others), rfl, at_⟩
  | [some e], h, short, x :: rounds, c, _, starts => by
    rw [elementsText_some] at starts
    refine (reads_entriesIn_last covers mark h.1 (.listed e) (short (some e) (by simp)) starts).mono ?_
    rintro l d ⟨s, stands, rfl, at_⟩
    exact ⟨[some s], .cons stands .nil, rfl, at_⟩
  | some e :: y :: rest, h, short, x :: rounds, c, enough, starts => by
    have calm := calm_elementsText (y :: rest) h.2 (.closed closer behind) (by simpa [Tail.closed] using mark)
    have text : elementsText (some e :: y :: rest) ++ (Tail.closed closer behind).text = e.listed ++
        (Tail.closed .comma (.char ' ' :: (elementsText (y :: rest) ++ (Tail.closed closer behind).text))).text := by
      simp [elementsText_cons, elementText, Tail.text_comma]
    rw [text] at starts enough
    refine reads_entriesIn_item covers mark h.1 (.listed e) (short (some e) (by simp)) rfl starts fun s d stands meets => ?_
    have comma : d.lexeme.isPunct "," = true := meets.isPunct ","
    simp only [reads_tryPunct, comma, ↓reduceIte, reads_bind, reads_pure]
    have enough' : (elementsText (y :: rest) ++ (Tail.closed closer behind).text).length < rounds.length := by
      simp [Tail.text_comma] at enough ⊢
      omega
    refine (reads_entriesIn mark slot behind (y :: rest) h.2 (fun e he => short e (by simp [he])) rounds _ enough'
      ((meets.accept .plain).starts.of_space calm)).mono ?_
    rintro l d' ⟨ss, stand, rfl, at_⟩
    cases stand with
    | cons first others => exact ⟨some s :: _, .cons stands (.cons first others), rfl, at_⟩

theorem reads_entries {closer : Closer} (mark : closer = .paren ∨ closer = .bracket) (slot : Slot)
    {behind : List Symbol} {es : List (Option Expr)} (h : canonicalElements rule es)
    (short : ∀ e ∈ es, (elementText e).length < n) {c : Cursor}
    (at_ : c.At .plain (elementsText es ++ (Tail.closed closer behind).text)) :
    Reads (entries g closer.sign slot) c fun l d =>
      ∃ ss, List.Forall₂ Surface.Expr.ElementStands ss es ∧ l = entriesOf ss ∧ d.At slot behind := by
  rw [entries, reads_rounds, at_.rest]
  exact reads_entriesIn covers mark slot behind es h short _ c (by simp) at_.starts

omit covers in
theorem exists_allStand {ss : List (Option Surface.Expr)} {es : List Expr}
    (h : List.Forall₂ Surface.Expr.ElementStands ss (es.map some)) :
    ∃ args, ss = args.map some ∧ Surface.Expr.AllStand args es := by
  induction es generalizing ss with
  | nil =>
    cases h
    exact ⟨[], rfl, .nil⟩
  | cons e es ih =>
    cases h with
    | @cons s _ ss _ first others =>
      obtain ⟨args, rfl, stand⟩ := ih others
      cases s with
      | none => exact first.elim
      | some s => exact ⟨s :: args, rfl, .cons first stand⟩

/-- The arguments of a call are read. -/
theorem reads_arguments {es : List Expr} (h : canonicalExprs rule es)
    (short : ∀ e ∈ es, e.listed.length < n) (slot : Slot) {behind : List Symbol} {c : Cursor}
    (at_ : c.At .plain (joined (es.map Expr.listed) ++ .char ')' :: behind)) :
    Reads (arguments g slot) c fun args d => Surface.Expr.AllStand args es ∧ d.At slot behind := by
  rw [joined_listed, ← Tail.text_paren] at at_
  simp only [arguments, reads_bind, reads_pure]
  refine (reads_entries covers (.inl rfl) slot (canonicalElements_some h) ?_ at_).mono ?_
  · simpa [elementText] using short
  · rintro l d ⟨ss, stand, rfl, at_⟩
    obtain ⟨args, rfl, all⟩ := exists_allStand stand
    rw [filterMap_entriesOf, List.filterMap_map]
    simpa using ⟨all, at_⟩

end

/-! ## Sequences -/

namespace Expr

/-- The first operand of a sequence, and the others. Any other expression is its own first operand. -/
def parts : Expr → Expr × List Expr
  | .sequence _ (first :: rest) => (first, rest)
  | e => (e, [])

theorem parts_canonical {e : Expr} (h : e.Canonical rule) :
    e.parts.1.Canonical rule ∧ canonicalExprs rule e.parts.2 := by
  cases e with
  | sequence span es =>
    cases es with
    | nil => exact absurd h.1 (by simp)
    | cons first rest => exact h.2.2
  | _ => exact ⟨h, trivial⟩

theorem listed_of_not_sequence {e : Expr} (h : e.isSequence = false) : e.listed = e.text := by
  rw [listed, h]
  rfl

/-- The text of an expression is that of its parts with commas between them. -/
theorem text_eq_joined {e : Expr} (h : e.Canonical rule) :
    e.text = joined ((e.parts.1 :: e.parts.2).map listed) := by
  cases e with
  | sequence span es =>
    cases es with
    | nil => exact absurd h.1 (by simp)
    | cons first rest =>
      rw [text_sequence]
      exact congrArg joined (List.map_congr_left fun e he => (listed_of_not_sequence (h.2.1 e he)).symm)
  | _ => rfl

theorem text_parts {e : Expr} (h : e.Canonical rule) (t : Tail) :
    e.text ++ t.text = e.parts.1.listed ++ (t.behind (e.parts.2.map listed)).text := by
  rw [text_eq_joined h, List.map_cons, joined_cons]

/-- No part of an expression is longer than the whole. -/
theorem length_parts {e : Expr} (h : e.Canonical rule) {p : Expr} (hp : p ∈ e.parts.1 :: e.parts.2) :
    p.listed.length ≤ e.text.length := by
  rw [text_eq_joined h]
  exact length_le_joined (List.mem_map_of_mem hp)

/-- What stands for the parts of an expression stands for the expression. -/
theorem stands_parts {e : Expr} (h : e.Canonical rule) {s : Surface.Expr} {ss : List Surface.Expr}
    (first : s.Stands e.parts.1) (rest : Surface.Expr.AllStand ss e.parts.2) (x : Extent) :
    (if ss.isEmpty then s else .sequence x (s :: ss)).Stands e := by
  cases e with
  | sequence span es =>
    match es, h.1 with
    | a :: b :: more, _ =>
      cases rest with
      | cons second others => exact Surface.Expr.Stands.sequence (.cons first (.cons second others))
  | _ =>
    cases rest
    exact first

end Expr

namespace Tail

theorem isClose_behind {t : Tail} (h : t.mark.isClose = true) (l : List (List Symbol)) :
    (t.behind l).mark.isClose = true := by
  cases l with
  | nil => exact h
  | cons s l => rfl

theorem suits_behind {t : Tail} {k : Context} (h : t.mark.Suits k) (l : List (List Symbol)) :
    (t.behind l).mark.Suits k := by
  cases l with
  | nil => exact h
  | cons s l => exact .of_ne k (by simp [behind, closed]) (by simp [behind, closed])

end Tail

section

variable {g : Level} {n : Nat} (covers : g.Covers rule n) {k : Context} {t : Tail}
  (close : t.mark.isClose = true) (comma : t.mark ≠ .close .comma) (suits : t.mark.Suits k)

include covers close comma suits

theorem reads_moreIn : (es : List Expr) → canonicalExprs rule es → (∀ e ∈ es, e.listed.length < n) →
    (rounds : List Symbol) → (c : Cursor) → (t.behind (es.map Expr.listed)).text.length < rounds.length →
    c.Meets (t.behind (es.map Expr.listed)) →
    Reads (moreIn g k rounds) c fun ss d => Surface.Expr.AllStand ss es ∧ d.Meets t
  | _, _, _, [], _, enough, _ => by simp at enough
  | [], _, _, x :: rounds, c, _, meets => by
    have other : c.lexeme.isPunct "," = false := by
      rw [meets.isPunct]
      show (t.mark.token == _) = false
      match h : t.mark, close with
      | .close closer, _ =>
        cases closer
        case comma => exact absurd h comma
        all_goals rfl
    simp only [moreIn, reads_bind, reads_tryPunct, other, Bool.false_eq_true, ↓reduceIte, reads_pure]
    exact ⟨.nil, meets⟩
  | e :: es, h, short, x :: rounds, c, enough, meets => by
    have next : c.lexeme.isPunct "," = true := meets.isPunct ","
    have text : (t.behind ((e :: es).map Expr.listed)).rest =
        .char ' ' :: (e.listed ++ (t.behind (es.map Expr.listed)).text) := by
      rw [← joined_cons]
      rfl
    have inside := meets.accept .plain
    rw [text] at inside
    have shut := Tail.isClose_behind close (es.map Expr.listed)
    have lead := Expr.lead_listed h.1 (t.behind (es.map Expr.listed))
      (by intro e; simp [e, Mark.isClose] at shut)
    have enough' : (t.behind (es.map Expr.listed)).text.length < rounds.length := by
      have := congrArg List.length text
      rw [Tail.text, Tail.body] at enough
      simp only [List.length_append, List.length_cons] at enough this
      omega
    simp only [moreIn, reads_bind, reads_tryPunct, next, ↓reduceIte, reads_pure]
    refine (covers.expr h.1 (.listed e) (short e (by simp)) shut (Tail.suits_behind suits _).right rfl
      (inside.starts.of_space lead.calm)).mono fun s d read => ?_
    refine (reads_moreIn es h.2 (fun e he => short e (by simp [he])) rounds d enough' read.2).mono ?_
    exact fun ss d' rest => ⟨.cons read.1 rest.1, rest.2⟩

/-- Behind the first part of an expression the others are read. -/
theorem reads_sequenceFrom {e : Expr} (h : e.Canonical rule) (short : ∀ p ∈ e.parts.2, p.listed.length < n)
    {s : Surface.Expr} (first : s.Stands e.parts.1) {c : Cursor}
    (meets : c.Meets (t.behind (e.parts.2.map Expr.listed))) :
    Reads (sequenceFrom g k s) c fun s d => s.Stands e ∧ d.Meets t := by
  simp only [sequenceFrom, reads_bind, reads_rounds]
  refine (reads_moreIn covers close comma suits e.parts.2 (e.parts_canonical h).2 short _ c
    (by rw [meets.rest]; simp) meets).mono fun ss d read => ?_
  have stands := e.stands_parts h first read.1
  cases ss with
  | nil => exact (reads_pure _ _ _).mpr ⟨stands default, read.2⟩
  | cons s' ss =>
    simp only [reads_bind, reads_extentFrom, reads_pure]
    exact ⟨stands _, read.2⟩

theorem reads_expressions (header : k.header = false) {e : Expr} (h : e.Canonical rule)
    (short : e.text.length < n) {c : Cursor} (starts : c.Starts (e.text ++ t.text)) :
    Reads (expressions g k) c fun s d => s.Stands e ∧ d.Meets t := by
  have parts (p : Expr) (hp : p ∈ e.parts.1 :: e.parts.2) : p.listed.length < n :=
    Nat.lt_of_le_of_lt (e.length_parts h hp) short
  rw [e.text_parts h] at starts
  simp only [expressions, reads_bind]
  refine (covers.expr (e.parts_canonical h).1 (.listed _) (parts _ (by simp)) (Tail.isClose_behind close _)
    (Tail.suits_behind suits _) header starts).mono fun s d read => ?_
  exact reads_sequenceFrom covers close comma suits h (fun p hp => parts p (by simp [hp])) read.1 read.2

end

/-- An expression between brackets is read with the closing one. -/
theorem reads_enclosed {g : Level} {n : Nat} (covers : g.Covers rule n) {closer : Closer}
    (comma : closer ≠ .comma) (slot : Slot) {e : Expr} (h : e.Canonical rule) (short : e.text.length < n)
    {behind : List Symbol} {c : Cursor} (starts : c.Starts (e.text ++ (Tail.closed closer behind).text)) :
    Reads (enclosed g closer.sign slot) c fun s d => s.Stands e ∧ d.At slot behind := by
  simp only [enclosed, reads_bind, reads_expect, reads_pure]
  refine (reads_expressions covers (t := .closed closer behind) rfl (by simpa [Tail.closed] using comma)
    ⟨fun _ => rfl, fun e => by cases e⟩ rfl h short starts).mono fun s d read => ?_
  refine ⟨?_, read.1, read.2.accept slot⟩
  rw [read.2.isPunct]
  exact beq_self_eq_true _

/-! ## Lists in parentheses -/

theorem entriesOf_map_some {α : Type} {l : List α} (h : l ≠ []) : entriesOf (l.map some) = l.map some := by
  induction l with
  | nil => exact absurd rfl h
  | cons a l ih =>
    cases l with
    | nil => rfl
    | cons b l =>
      rw [List.map_cons, List.map_cons, entriesOf]
      exact congrArg _ (ih (by simp))

theorem mapM_id_map_some {α : Type} (l : List α) : (l.map some).mapM id = some l := by
  induction l with
  | nil => rfl
  | cons a l ih => simp [ih]

theorem any_spread {ss : List Surface.Expr} {es : List Expr} (h : Surface.Expr.AllStand ss es) :
    (ss.any fun s => s matches .spread ..) = false := by
  induction h with
  | nil => rfl
  | @cons s e ss es first rest ih =>
    have plain := first.isPlain
    rw [List.any_cons, ih, Bool.or_false]
    cases s with
    | spread => cases plain
    | _ => rfl

theorem Expr.stands_inParens {e : Expr} (compound : e.isCompound = true) {s : Surface.Expr}
    (h : s.Stands e) (x : Extent) : (Surface.Expr.parens x s).Stands e := by
  refine h.parens x ?_ ?_
  · rintro id rfl
    cases compound
  · rintro span rfl
    cases compound

/-- The parts of an expression in parentheses are taken for the expression. -/
theorem parens?_stands {e : Expr} (h : e.Canonical rule) (compound : e.isCompound = true)
    {ss : List Surface.Expr} (stand : Surface.Expr.AllStand ss (e.parts.1 :: e.parts.2)) (x : Extent) :
    ∃ s, parens? x (entriesOf (ss.map some)) = some (.parens x s) ∧ (Surface.Expr.parens x s).Stands e := by
  have spread := any_spread stand
  cases stand with
  | @cons s _ ss _ first rest =>
    have stands := e.stands_parts h first rest
    rw [entriesOf_map_some (by simp), parens?, mapM_id_map_some]
    cases ss with
    | nil => exact ⟨s, if_neg (ne_true_of_eq_false spread), e.stands_inParens compound (stands default) x⟩
    | cons s' ss => exact ⟨_, if_neg (ne_true_of_eq_false spread), e.stands_inParens compound (stands _) x⟩

theorem canonicalExprs_of_isParam {ps : List Expr} (h : ∀ p ∈ ps, p.IsParam) : canonicalExprs rule ps := by
  induction ps with
  | nil => trivial
  | cons p ps ih =>
    refine ⟨?_, ih fun p hp => h p (by simp [hp])⟩
    have param := h p (by simp)
    cases p with
    | identifier id => exact param.1
    | _ => exact param.elim

/-- Names in parentheses are taken for parameters. -/
theorem params?_stands {ps : List Expr} (h : ∀ p ∈ ps, p.IsParam) {ss : List Surface.Expr}
    (stand : Surface.Expr.AllStand ss ps) :
    ∃ bs, Surface.params? (entriesOf (ss.map some)) = some bs ∧
      List.Forall₂ Surface.Binding.Stands bs ps := by
  rw [Surface.params?, withoutTrailing_entriesOf]
  induction stand with
  | nil => exact ⟨[], rfl, .nil⟩
  | @cons s p ss ps first rest ih =>
    obtain ⟨bs, eq, stand⟩ := ih fun p hp => h p (by simp [hp])
    have param := h p (by simp)
    cases p with
    | identifier id =>
      obtain ⟨x, rfl⟩ := first.form
      refine ⟨.name ⟨x, id.name⟩ :: bs, ?_, .cons ⟨x, id, rfl, rfl⟩ stand⟩
      have name : Surface.Expr.param? (.name ⟨x, id.name⟩) = some (.name ⟨x, id.name⟩) := if_neg param.2
      simp [eq, name]
    | _ => exact param.elim

/-- The parameters of a function are read. -/
theorem reads_params {g : Level} {n : Nat} (covers : g.Covers rule n) {ps : List Expr}
    (h : ∀ p ∈ ps, p.IsParam) (short : ∀ p ∈ ps, p.listed.length < n) {rest : List Symbol} {c : Cursor}
    (starts : c.Starts (inParens (joined (ps.map Expr.listed)) ++ rest)) :
    Reads (params g) c fun bs d => List.Forall₂ Surface.Binding.Stands bs ps ∧ d.At .plain rest := by
  have text : inParens (joined (ps.map Expr.listed)) ++ rest =
      (Tail.called (elementsText (ps.map some) ++ (Tail.closed .paren rest).text)).text := by
    simp [Tail.text_called, Tail.text_paren, inParens, joined_listed]
  rw [text] at starts
  have sees := starts.tail (by simp [Tail.called])
  simp only [params, reads_bind, reads_expect]
  refine ⟨sees.isPunct "(", (reads_entries covers (.inl rfl) .plain
    (canonicalElements_some (canonicalExprs_of_isParam h)) ?_ (sees.accept .plain)).mono ?_⟩
  · simpa [elementText] using short
  · rintro l d ⟨ss, stand, rfl, at_⟩
    obtain ⟨args, rfl, all⟩ := exists_allStand stand
    obtain ⟨bs, eq, stands⟩ := params?_stands h all
    simp only [eq, takeParams, settle, lose, reads_bind, reads_modify, reads_pure]
    refine ⟨stands, at_.slot, at_.rest, ?_⟩
    simp [at_.pending]

end IndexedLoop
