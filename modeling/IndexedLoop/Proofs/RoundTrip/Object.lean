import IndexedLoop.Proofs.RoundTrip.Primary

/-!
# Objects

A key with a colon behind it is no modifier and no method, so every property is read as a key and a value.
-/

namespace IndexedLoop

open Lexical Parse Grammar

/-! ## What stands in front of a colon -/

theorem View.of_colon (rest : List Symbol) :
    View.of .plain (.char ':' :: rest) = ⟨.punct ":", .char ':' :: rest, rest⟩ :=
  View.of_punct (p := ":") (Calm.of_char (c := ':') (by decide) (by decide) rest) (by decide)
    (punctuator?_solitary (by decide) rest) (by decide)

theorem staticGet?_char {c : Char} (h : c ≠ 's') (rest : List Symbol) : staticGet? (.char c :: rest) = none := by
  simp [staticGet?, startsWith, Ne.symm h]

/-- A name is not the start of `static get`, unless it is the word `static` in front of a blank. -/
theorem staticGet?_name {cs : List Char} (h : IsName cs) {rest : List Symbol} (stop : Breaks rest)
    (other : cs = "static".toList → rest.head? ≠ some (.char ' ')) :
    staticGet? (cs.map .char ++ rest) = none := by
  rw [staticGet?]
  split
  case isFalse => rfl
  case isTrue starts =>
    obtain ⟨more, rfl⟩ := prefix_of_startsWith (w := "static".toList) (by decide) stop.wordPiece_eq starts
    have gap : runLength (·.satisfies isAsciiBlank) (more.map .char ++ rest) = 0 := by
      cases more with
      | nil =>
        cases rest with
        | nil => rfl
        | cons x rest =>
          obtain ⟨c, mem, rfl⟩ := stop x rfl
          have blank : ∀ c ∈ breakChars, c ≠ ' ' → isAsciiBlank c = false := by decide
          have space : c ≠ ' ' := by
            rintro rfl
            exact other rfl rfl
          simp [runLength, Symbol.satisfies, blank c mem space]
      | cons c more =>
        have blank := Semicolon.not_asciiBlank (h.text.not_blank c (by simp))
        simp [runLength, Symbol.satisfies, blank]
    simp [gap]

namespace Expr.IsKey

variable {e : Expr} (h : e.IsKey)

include h

/-- The first character of a key. -/
theorem first (rest : List Symbol) : ∃ c more, e.text ++ rest = .char c :: more ∧ isBlank c = false ∧
    c ∉ ['/', '<', '-'] := by
  cases e with
  | identifier id =>
    obtain ⟨c, more, text, blank, other⟩ := IsName.opens h
    simp only [signs, List.mem_cons, List.not_mem_nil, or_false, not_or] at other
    exact ⟨c, more.map .char ++ rest, by simp [text_identifier, Identifier.text, text], blank, by simp [other]⟩
  | literal lit =>
    obtain ⟨span, value⟩ := lit
    cases value with
    | string raw => exact ⟨'"', _, by rw [text_string]; rfl, by decide, by decide⟩
    | number value =>
      obtain ⟨p, text, -⟩ := NumberLiteral.format_parts h.1 h.2
      obtain ⟨d, more, digits, digit, -⟩ := p.exists_text_eq
      have : ∀ c ∈ digitChars, isBlank c = false ∧ c ∉ ['/', '<', '-'] := by decide
      obtain ⟨blank, other⟩ := this d (mem_digitChars digit)
      exact ⟨d, more.map .char ++ rest, by simp [text_number, text, Symbol.ofString, digits], blank, other⟩
    | _ => exact h.elim
  | _ => exact h.elim

end Expr.IsKey

/-! ## Properties -/

theorem canonicalProperties_cons {rule : TargetRule} {p : Property} {ps : List Property} :
    canonicalProperties rule (p :: ps) ↔
      p.key.IsKey ∧ p.value.Canonical rule ∧ canonicalProperties rule ps := by
  cases p
  exact Iff.rfl

section

variable {g : Level} {c : Cursor}

theorem reads_tryStaticGet {post : Bool → Cursor → Prop} (h : staticGet? c.lexeme.start.rest = none) :
    Reads tryStaticGet c post ↔ post false c := by
  simp only [tryStaticGet, reads_bind, reads_look, h, reads_pure]

/-- A word with a colon behind it is no modifier. -/
theorem reads_tryModifier {w : String} {star : Bool} {site : Site} {post : Bool → Cursor → Prop}
    (h : c.lexeme.isWord w = true → (c.lexeme.next site.modifierSlot).token = .punct ":") :
    Reads (tryModifier w star site) c post ↔ post false c := by
  simp only [tryModifier, reads_bind, reads_look]
  cases word : c.lexeme.isWord w with
  | false => simp only [Bool.false_and, Bool.false_eq_true, ↓reduceIte, reads_pure]
  | true =>
    have key : (Token.punct ":").startsKey = false := rfl
    have punct : (c.lexeme.next site.modifierSlot).isPunct "*" = false := by
      rw [Lexeme.isPunct, h word]
      rfl
    simp only [h word, key, punct, Bool.false_and, Bool.and_false, Bool.or_self, Bool.false_eq_true, ↓reduceIte,
      reads_pure]

/-- Where no word is a modifier, the key follows. -/
theorem reads_modifiers {site : Site} {post : Bool × Site → Cursor → Prop}
    (static : staticGet? c.lexeme.start.rest = none) (star : c.lexeme.isPunct "*" = false)
    (h : ∀ w ∈ ["static", "async", "get", "set"], c.lexeme.isWord w = true →
      (c.lexeme.next site.modifierSlot).token = .punct ":") :
    Reads (modifiers site) c post ↔ post (false, site) c := by
  simp only [List.mem_cons, List.not_mem_nil, or_false, forall_eq_or_imp, forall_eq] at h
  simp only [modifiers, reads_bind, reads_tryStaticGet static, Bool.false_eq_true, ↓reduceIte,
    reads_tryModifier h.1, reads_pure, reads_tryModifier h.2.1, reads_tryPunct, star,
    reads_tryModifier h.2.2.1, reads_tryModifier h.2.2.2]

/-- A key is seen with the colon behind it, and read. -/
theorem reads_key {e : Expr} (h : e.IsKey) {rest : List Symbol} (starts : c.Starts (e.text ++ .char ':' :: rest)) :
    (∀ p, c.lexeme.isPunct p = false) ∧ staticGet? c.lexeme.start.rest = none ∧
      (c.lexeme.next .plain).token = .punct ":" ∧
        Reads (key g .object) c fun k d => k.Stands e ∧ d.At .plain (.char ':' :: rest) := by
  have stop : Breaks (.char ':' :: rest) := by simp [Breaks, breakChars]
  have behind {token : Token} {start : List Symbol} (sees : c.Sees ⟨token, start, .char ':' :: rest⟩) :
      (c.lexeme.next .plain).token = .punct ":" := by
    rw [Lexeme.next, (sees.accept .plain).sees.token, View.of_colon]
  cases e with
  | identifier id =>
    rw [Expr.text_identifier, Cursor.Starts, View.of_identifier h stop] at starts
    refine ⟨fun p => ?_, ?_, behind starts, ?_⟩
    · rw [starts.isPunct]
      rfl
    · rw [starts.start]
      exact staticGet?_name h stop (by simp)
    · have slot : (if softKeywords.contains id.name then Site.object.modifierSlot else Site.object.slot) = .plain :=
        ite_self _
      simp only [key, reads_bind, reads_look, starts.token, slot, reads_accept, reads_pure]
      exact ⟨.name _ id, starts.accept .plain⟩
  | literal lit =>
    obtain ⟨span, value⟩ := lit
    cases value with
    | string raw =>
      rw [Expr.text_string, Cursor.Starts, View.of_string h] at starts
      refine ⟨fun p => ?_, ?_, behind starts, ?_⟩
      · rw [starts.isPunct]
        rfl
      · rw [starts.start]
        exact staticGet?_char (by decide) _
      · simp only [key, reads_bind, reads_look, starts.token, reads_accept, reads_pure]
        exact ⟨.literal (Surface.Literal.stands_string _ raw), starts.accept .plain⟩
    | number value =>
      obtain ⟨p, text, read⟩ := NumberLiteral.format_parts h.1 h.2
      obtain ⟨d, more, digits, digit, -⟩ := p.exists_text_eq
      have symbols : Symbol.ofString (numberStyle.format value) = p.text.map .char := by
        simp [text, Symbol.ofString]
      rw [Expr.text_number, symbols, Cursor.Starts, View.of_number stop (by simp)] at starts
      refine ⟨fun p => ?_, ?_, behind starts, ?_⟩
      · rw [starts.isPunct]
        rfl
      · rw [starts.start, digits]
        refine staticGet?_char ?_ _
        rintro rfl
        exact absurd digit (by decide)
      · simp only [key, reads_bind, reads_look, starts.token, reads_accept, reads_pure]
        exact ⟨.literal (Surface.Literal.stands_number _ text read), starts.accept .plain⟩
    | _ => exact h.elim
  | _ => exact h.elim

theorem reads_decorators {post : Bool → Cursor → Prop} (h : c.lexeme.isPunct "@" = false) :
    Reads (decorators g) c post ↔ post false c := by
  simp only [decorators, reads_rounds, decoratorsIn, reads_bind, reads_tryPunct, h, Bool.false_eq_true, ↓reduceIte,
    reads_pure]

variable {rule : TargetRule} {n : Nat} (covers : g.Covers rule n)

include covers

/-- A property is read with its value. -/
theorem reads_member {p : Property} (isKey : p.key.IsKey) (canonical : p.value.Canonical rule)
    (short : p.value.listed.length < n) {t : Tail} (close : t.mark.isClose = true)
    (starts : c.Starts (p.text ++ t.text)) : Reads (member g .object) c fun m d => m.Stands p ∧ d.Meets t := by
  rw [Property.text, List.append_assoc, List.cons_append, List.cons_append] at starts
  obtain ⟨punct, static, next, read⟩ := reads_key (g := g) isKey starts
  have lead := Expr.lead_listed canonical t (by rintro e; simp [e, Mark.isClose] at close)
  have modifiers (post : Bool × Site → Cursor → Prop) :
      Reads (modifiers .object) c post ↔ post (false, .object) c :=
    reads_modifiers static (punct "*") fun _ _ _ => next
  simp only [member, reads_bind, reads_look, punct, Bool.false_eq_true, ↓reduceIte, keyedMember,
    reads_decorators, modifiers]
  refine read.mono fun k d key => ?_
  have sees := key.2.sees
  rw [View.of_colon] at sees
  have paren : d.lexeme.isPunct "(" = false := sees.isPunct "("
  have colon : d.lexeme.isPunct ":" = true := sees.isPunct ":"
  simp only [memberTail, reads_bind, reads_look, paren, Bool.false_eq_true, ↓reduceIte, Bool.or_self, Bool.not_false,
    reads_guard_true, colon, reads_accept]
  have inside := (sees.accept .plain).starts.of_space lead.calm
  refine (reads_item covers canonical (.listed _) short close inside).mono fun s d' value => ?_
  have plain := value.1.isPlain
  have stands (x : Extent) : (Surface.Member.pair x k s).Stands p := ⟨x, k, s, rfl, key.1, value.1⟩
  cases s with
  | spread => cases plain
  | _ =>
    simp only [Bool.false_eq_true, ↓reduceIte, reads_bind, reads_pure, reads_extentFrom]
    exact ⟨stands _, value.2⟩

/-- The properties of an object are read up to its closing brace. -/
theorem reads_membersIn (slot : Slot) (behind : List Symbol) : (ps : List Property) →
    canonicalProperties rule ps → (∀ p ∈ ps, p.value.listed.length < n) → (rounds : List Symbol) →
    (c : Cursor) → (joined (ps.map Property.text) ++ (Tail.closed .brace behind).text).length < rounds.length →
    c.Starts (joined (ps.map Property.text) ++ (Tail.closed .brace behind).text) →
    Reads (membersIn g .object slot rounds) c fun ms d =>
      List.Forall₂ Surface.Member.Stands ms ps ∧ d.At slot behind
  | _, _, _, [], _, enough, _ => by simp at enough
  | [], _, _, x :: rounds, c, _, starts => by
    have sees := Cursor.Starts.tail (t := .closed .brace behind) starts (by simp [Tail.closed])
    have close : c.lexeme.isPunct "\x7d" = true := sees.isPunct "\x7d"
    simp only [membersIn, reads_bind, reads_look, close, ↓reduceIte, reads_accept, reads_pure]
    exact ⟨.nil, sees.accept slot⟩
  | p :: ps, h, short, x :: rounds, c, enough, starts => by
    rw [canonicalProperties_cons] at h
    rw [List.map_cons, joined_cons] at starts enough
    have close := Tail.isClose_behind (t := .closed .brace behind) rfl (ps.map Property.text)
    have front := starts
    rw [Property.text, List.append_assoc, List.cons_append, List.cons_append] at front
    obtain ⟨punct, -⟩ := reads_key (g := g) h.1 front
    rw [membersIn]
    simp only [reads_bind, reads_look, punct, Bool.false_eq_true, ↓reduceIte]
    refine (reads_member covers h.1 h.2.1 (short _ (by simp)) close starts).mono fun m d read => ?_
    cases ps with
    | nil =>
      have comma : d.lexeme.isPunct "," = false := read.2.isPunct ","
      have brace : d.lexeme.isPunct "\x7d" = true := read.2.isPunct "\x7d"
      simp only [reads_tryPunct, comma, Bool.false_eq_true, ↓reduceIte, reads_bind, reads_expect, brace, reads_pure,
        true_and]
      exact ⟨.cons read.1 .nil, read.2.accept slot⟩
    | cons q ps =>
      have comma : d.lexeme.isPunct "," = true := read.2.isPunct ","
      have inside := read.2.accept .plain
      have space : (Tail.behind (.closed .brace behind) ((q :: ps).map Property.text)).rest =
          .char ' ' :: (joined ((q :: ps).map Property.text) ++ (Tail.closed .brace behind).text) := rfl
      obtain ⟨a, more, first, blank, other⟩ := (canonicalProperties_cons.mp h.2.2).1.first
        (.char ':' :: .char ' ' :: (q.value.listed ++
          (Tail.behind (.closed .brace behind) (ps.map Property.text)).text))
      have text : joined ((q :: ps).map Property.text) ++ (Tail.closed .brace behind).text = .char a :: more := by
        rw [List.map_cons, joined_cons, ← first, Property.text, List.append_assoc, List.cons_append,
          List.cons_append]
      have next : (d.lexeme.stop.facing .plain).Starts
          (joined ((q :: ps).map Property.text) ++ (Tail.closed .brace behind).text) := by
        have seen := inside.starts
        rw [space, text, Cursor.Starts, (Silent.of_char blank other more).view (by simp)] at seen
        rwa [text]
      simp only [reads_tryPunct, comma, ↓reduceIte, reads_bind, reads_pure]
      refine (reads_membersIn slot behind (q :: ps) h.2.2 (fun p hp => short p (by simp [hp])) rounds _ ?_
        next).mono fun ms d' rest => ⟨.cons read.1 rest.1, rest.2⟩
      have := congrArg List.length space
      rw [Tail.text, Tail.body] at enough
      simp only [List.length_append, List.length_cons] at enough this ⊢
      omega

/-- An object is an operand of its own. -/
theorem reads_primary_object {span : Span} {ps : List Property} (h : canonicalProperties rule ps)
    (short : (joined (ps.map Property.text)).length < n) {k : Context} {t : Tail} (suits : t.mark.Suits k)
    (starts : c.Starts ((Expr.object span ps).text ++ t.text)) :
    Reads (primary g k) c fun p d => p.Stands (.object span ps) ∧ (∃ x ms, p = .object x ms) ∧ d.Meets t := by
  have inner : (Expr.object span ps).text ++ t.text = Symbol.ofString "\x7b" ++
      (joined (ps.map Property.text) ++ (Tail.closed .brace t.text).text) := by
    simp [Expr.text_object, Tail.text_brace, Symbol.ofString]
  rw [inner, Cursor.Starts, View.of_bracket (by decide)] at starts
  have inside := starts.accept .plain
  have values : ∀ p ∈ ps, p.value.listed.length < n := by
    intro p mem
    have := length_le_joined (List.mem_map_of_mem (f := Property.text) mem)
    simp only [Property.text, List.length_append, List.length_cons] at this
    omega
  simp only [primary, reads_bind, reads_look, starts.token, reads_accept, objectTail, reads_rounds, reads_extentFrom,
    reads_pure]
  rw [inside.rest]
  refine (reads_membersIn covers k.target t.text ps h values _ _ (by simp) inside.starts).mono ?_
  intro ms d read
  exact ⟨.object read.1, ⟨_, ms, rfl⟩, (Cursor.Behind.of_target read.2).meets suits.brace⟩

end

end IndexedLoop
