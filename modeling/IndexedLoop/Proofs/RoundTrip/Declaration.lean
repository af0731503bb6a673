import IndexedLoop.Proofs.RoundTrip.Callee

/-!
# Declarations

The variables of a declaration are read up to the semicolon behind them (`reads_declarationTail`). Behind
the name of a variable stands a `Tail` again: its initial value, the next variable or the semicolon.
-/

namespace IndexedLoop

open Lexical Parse Grammar

/-! ## Semicolons -/

/-- A written semicolon is read. -/
theorem reads_semicolon {rest : List Symbol} {c : Cursor} (meets : c.Meets (.closed .semicolon rest))
    {post : Unit → Cursor → Prop} (next : ∀ d, d.At .plain rest → post () d) : Reads semicolon c post := by
  have found : c.lexeme.isPunct ";" = true := meets.isPunct ";"
  simp only [semicolon, reads_bind, reads_look, found, Bool.true_or, reads_guard_true, reads_accept]
  exact next _ (meets.accept .plain)

/-- Behind the line of a statement stands what follows it. -/
theorem Next.starts {rest : List Symbol} (h : Next rest) {c : Cursor} (at_ : c.At .plain (.char '\n' :: rest)) :
    c.Starts rest := by
  have starts := at_.starts
  rwa [Cursor.Starts, h.silent.view (by simp)] at starts

/-! ## Variables -/

theorem Identifier.IsBinding.calm {id : Identifier} (h : id.IsBinding) (t : Tail) : Calm (id.text ++ t.text) :=
  Calm.of_name h.1.1 h.1.not_operator t.breaks.wordPiece_eq

namespace Mark

/-- A comma or a semicolon. -/
def isSeparator : Mark → Bool
  | .close .comma | .close .semicolon => true
  | _ => false

variable {m : Mark} (h : m.isSeparator = true)

include h

theorem isClose_of_separator : m.isClose = true := by
  unfold isSeparator at h
  split at h
  · rfl
  · rfl
  · cases h

theorem suits_of_separator (k : Context) : m.Suits k := by
  refine .of_ne k ?_ ?_
  · rintro rfl
    cases h
  · rintro op rfl
    cases h

end Mark

namespace Tail

theorem isSeparator_behind {t : Tail} (h : t.mark.isSeparator = true) (l : List (List Symbol)) :
    (t.behind l).mark.isSeparator = true := by
  cases l with
  | nil => exact h
  | cons s l => rfl

end Tail

/-- Behind a name that is declared the mark is seen, whatever may stand there. -/
theorem Cursor.At.meets {c : Cursor} {t : Tail} {slot : Slot} (h : c.At slot t.text) (ask : t.mark ≠ .ask)
    (brace : t.mark ≠ .close .brace) : c.Meets t := by
  refine ⟨h.rest, ?_⟩
  rw [← t.view_of slot (fun e => absurd e ask) fun e => absurd e brace]
  exact h.sees

theorem Declarator.mark_tail {v : Declarator} {t : Tail} (h : t.mark.isSeparator = true) :
    (v.tail t).mark ≠ .ask ∧ (v.tail t).mark ≠ .close .brace := by
  unfold tail
  split
  · constructor
    · intro e
      rw [e] at h
      cases h
    · intro e
      rw [e] at h
      cases h
  · simp [Tail.assigned]

section

variable {g : Level} {n : Nat}

theorem reads_binding {id : Identifier} (h : id.IsBinding) {slot : Slot} {t : Tail} {c : Cursor}
    (starts : c.Starts (id.text ++ t.text)) :
    Reads (binding g slot) c fun b d => (∃ y, b = .name ⟨y, id.name⟩) ∧ d.At slot t.text := by
  rw [Cursor.Starts, View.of_identifier h.1.1 t.breaks] at starts
  simp only [binding, reads_bind, reads_look, starts.token, reads_accept, reads_pure]
  exact ⟨⟨_, rfl⟩, starts.accept slot⟩

variable {rule : TargetRule} (covers : g.Covers rule n)

include covers

/-- The initial value of a variable is read behind its name. -/
theorem reads_initializer {v : Declarator} (h : canonicalOption rule v.init) (short : v.text.length ≤ n)
    {t : Tail} (separator : t.mark.isSeparator = true) {c : Cursor} (meets : c.Meets (v.tail t)) :
    Reads (initializer g) c fun init d => Surface.Expr.ElementStands init v.init ∧ d.Meets t := by
  obtain ⟨span, id, init⟩ := v
  cases init with
  | none =>
    have equals : c.lexeme.isPunct "=" = false := by
      have : ∀ m ∈ Mark.all, m.isSeparator = true → (m.token == .punct "=") = false := by decide
      rw [meets.isPunct]
      exact this _ t.mark.mem_all separator
    simp only [initializer, reads_bind, reads_tryPunct, equals, Bool.false_eq_true, ↓reduceIte, reads_pure]
    exact ⟨trivial, meets⟩
  | some e =>
    have equals : c.lexeme.isPunct "=" = true := meets.isPunct "="
    have close := Mark.isClose_of_separator separator
    have lead := Expr.lead_listed h t (by rintro e; simp [e, Mark.isClose] at close)
    have length : e.listed.length < n := by
      simp only [Declarator.text, List.length_append, List.length_cons] at short
      omega
    simp only [initializer, reads_bind, reads_tryPunct, equals, ↓reduceIte, reads_pure]
    exact covers.expr h (.listed e) length close (Mark.suits_of_separator separator _) rfl
      ((meets.accept .plain).starts.of_space lead.calm)

theorem reads_declarator {v : Declarator} (isBinding : v.id.IsBinding) (h : canonicalOption rule v.init)
    (short : v.text.length ≤ n) {t : Tail} (separator : t.mark.isSeparator = true) {c : Cursor}
    (starts : c.Starts (v.text ++ t.text)) :
    Reads (declarator g) c fun s d => s.Stands v ∧ d.Meets t := by
  rw [v.text_tail] at starts
  have mark := Declarator.mark_tail (v := v) separator
  simp only [declarator, reads_bind, reads_extentFrom, reads_pure]
  refine (reads_binding isBinding starts).mono ?_
  rintro b d ⟨⟨y, rfl⟩, at_⟩
  refine (reads_initializer covers h short separator (at_.meets mark.1 mark.2)).mono fun init d' read => ?_
  exact ⟨⟨_, y, init, rfl, read.1⟩, read.2⟩

omit covers in
theorem calm_declarators {vs : List Declarator} (nonempty : vs ≠ []) (h : canonicalDeclarators rule vs) (t : Tail) :
    Calm (joined (vs.map Declarator.text) ++ t.text) := by
  cases vs with
  | nil => exact absurd rfl nonempty
  | cons v vs =>
    rw [List.map_cons, joined_cons, v.text_tail]
    exact (canonicalDeclarators_cons.mp h).1.calm _

/-- The variables of a declaration are read up to what ends it. -/
theorem reads_declaratorsIn {t : Tail} (mark : t.mark = .close .semicolon) : (vs : List Declarator) → vs ≠ [] →
    canonicalDeclarators rule vs → (joined (vs.map Declarator.text)).length ≤ n → (rounds : List Symbol) →
    (c : Cursor) → vs.length ≤ rounds.length →
    c.Starts (joined (vs.map Declarator.text) ++ t.text) →
    Reads (declaratorsIn g rounds) c fun ds d => List.Forall₂ Surface.Declarator.Stands ds vs ∧ d.Meets t
  | [], nonempty, _, _, _, _, _, _ => absurd rfl nonempty
  | v :: vs, _, _, _, [], _, enough, _ => by simp at enough
  | v :: vs, _, h, short, x :: rounds, c, enough, starts => by
    rw [canonicalDeclarators_cons] at h
    have length := length_le_joined (l := (v :: vs).map Declarator.text) (s := v.text) (by simp)
    have separator := Tail.isSeparator_behind (t := t) (by rw [mark]; rfl) (vs.map Declarator.text)
    rw [List.map_cons, joined_cons] at starts
    simp only [declaratorsIn, reads_bind, reads_tryPunct]
    refine (reads_declarator covers h.1 h.2.1 (by omega) separator starts).mono fun s d read => ?_
    cases vs with
    | nil =>
      have comma : d.lexeme.isPunct "," = false := by
        rw [read.2.isPunct]
        show (t.mark.token == _) = false
        rw [mark]
        rfl
      simp only [comma, Bool.false_eq_true, ↓reduceIte, reads_pure]
      exact ⟨.cons read.1 .nil, read.2⟩
    | cons v' vs =>
      have comma : d.lexeme.isPunct "," = true := read.2.isPunct ","
      have calm := calm_declarators (by simp) h.2.2 t
      have shorter : (joined ((v' :: vs).map Declarator.text)).length ≤ n := by
        simp only [List.map_cons, joined, List.length_append, List.length_cons] at short ⊢
        omega
      simp only [comma, ↓reduceIte, reads_bind, reads_pure]
      refine (reads_declaratorsIn mark (v' :: vs) (by simp) h.2.2 shorter rounds _ (by simpa using enough)
        ((read.2.accept .plain).starts.of_space calm)).mono fun ds d' more => ?_
      exact ⟨.cons read.1 more.1, more.2⟩

omit covers in
theorem length_le_joined_text {vs : List Declarator} (h : canonicalDeclarators rule vs) :
    vs.length ≤ (joined (vs.map Declarator.text)).length := by
  have positive (v : Declarator) (h : v.id.IsBinding) : 0 < v.text.length := by
    obtain ⟨c, more, e, -⟩ := h.1.1.first
    obtain ⟨span, id, init⟩ := v
    cases init <;> simp_all [Declarator.text, Identifier.text]
  induction vs with
  | nil => simp
  | cons v vs ih =>
    rw [canonicalDeclarators_cons] at h
    have first := positive v h.1
    have rest := ih h.2.2
    cases vs with
    | nil => simpa [joined] using Nat.succ_le_of_lt first
    | cons v' vs =>
      simp only [List.map_cons, joined, List.length_append, List.length_cons] at rest ⊢
      omega

/-- Behind a blank the variables of a declaration are read up to the semicolon. -/
theorem reads_declarators {vs : List Declarator} (nonempty : vs ≠ []) (h : canonicalDeclarators rule vs)
    (short : (joined (vs.map Declarator.text)).length ≤ n) {rest : List Symbol} {c : Cursor}
    (at_ : c.At .plain (.char ' ' :: (joined (vs.map Declarator.text) ++ (Tail.closed .semicolon rest).text))) :
    Reads (rounds (declaratorsIn g)) c fun ds d =>
      List.Forall₂ Surface.Declarator.Stands ds vs ∧ d.Meets (.closed .semicolon rest) := by
  have enough := length_le_joined_text h
  rw [reads_rounds, at_.rest]
  refine reads_declaratorsIn covers rfl vs nonempty h short _ c ?_ (at_.starts.of_space (calm_declarators nonempty h _))
  simp only [List.length_cons, List.length_append]
  omega

/-- A declaration is read behind its keyword. -/
theorem reads_declarationTail {d : Declaration} (h : d.Canonical rule) (short : d.text.length ≤ n)
    {rest : List Symbol} {start : Place} {c : Cursor}
    (at_ : c.At .plain (.char ' ' :: (joined (d.declarators.map Declarator.text) ++ .char ';' :: rest))) :
    Reads (declarationTail g start d.kind) c fun s c' => s.Stands d ∧ c'.At .plain rest := by
  obtain ⟨span, kind, vs⟩ := d
  simp only [Declaration.text, List.length_append, List.length_cons] at short
  rw [← Tail.text_semicolon] at at_
  simp only [declarationTail, reads_bind, reads_extentFrom, reads_pure]
  refine (reads_declarators covers h.1 h.2 (by omega) at_).mono fun ds c' read => ?_
  exact reads_semicolon read.2 fun _ behind => ⟨.mk read.1, behind⟩

end

/-! ## Keywords of declarations -/

theorem declarationKind?_eq_none {l : Lexeme} {slot : Slot} (h : ∀ kind : DeclKind, l.token ≠ .word kind.token) :
    declarationKind? l slot = none := by
  unfold declarationKind?
  split
  · rename_i token
    exact absurd token (h .var)
  · rename_i token
    exact absurd token (h .constant)
  · rename_i token
    exact absurd token (h .lexical)
  · rfl

/-- What is seen at the start of a declaration: its keyword, and then the first name. -/
structure Lexeme.Declares (l : Lexeme) (d : Declaration) : Prop where
  keyword : l.token = .word d.kind.token
  name : ∃ id : Identifier, id.IsBinding ∧ ∀ slot : Slot, slot.words = true → (l.next slot).token = .word id.name

namespace Lexeme.Declares

variable {l : Lexeme} {d : Declaration} (h : l.Declares d)

include h

theorem declarationKind? {slot : Slot} (words : slot.words = true) :
    Grammar.declarationKind? l slot = some d.kind := by
  obtain ⟨id, isBinding, next⟩ := h.name
  have operator : (Token.word id.name).isWordOperator = false := by
    have isIn : id.name ≠ "in" := by
      intro e
      exact isBinding.1.2 (e ▸ by decide)
    have instanceOf : id.name ≠ "instanceof" := by
      intro e
      exact isBinding.1.2 (e ▸ by decide)
    simp [Token.isWordOperator, isIn, instanceOf]
  have keyword := h.keyword
  unfold Grammar.declarationKind?
  rcases d with ⟨span, kind, vs⟩
  cases kind <;> simp_all [DeclKind.token]

end Lexeme.Declares

theorem Cursor.Starts.declares {rule : TargetRule} {d : Declaration} (h : d.Canonical rule) {rest : List Symbol}
    {c : Cursor} (starts : c.Starts (d.text ++ .char ';' :: rest)) :
    c.lexeme.Declares d ∧ (c.lexeme.stop.facing .plain).At .plain
      (.char ' ' :: (joined (d.declarators.map Declarator.text) ++ .char ';' :: rest)) := by
  obtain ⟨span, kind, vs⟩ := d
  obtain ⟨nonempty, h⟩ := h
  have mem : kind.token ∈ keywords := by cases kind <;> decide
  rw [Declaration.text, List.append_assoc, List.cons_append, ← Tail.text_semicolon, Cursor.Starts,
    View.of_keyword mem (by simp [Breaks, breakChars])] at starts
  refine ⟨⟨starts.token, ?_⟩, ?_⟩
  · cases vs with
    | nil => exact absurd rfl nonempty
    | cons v vs =>
      have calm := calm_declarators nonempty h (.closed .semicolon rest)
      rw [canonicalDeclarators_cons] at h
      refine ⟨v.id, h.1, fun slot words => ?_⟩
      have sees := (starts.accept slot).sees
      rw [calm.view_space, calm.view_words words, List.map_cons, joined_cons, v.text_tail,
        View.of_identifier h.1.1.1 (Tail.breaks _)] at sees
      exact sees.token
  · rw [← Tail.text_semicolon]
    exact starts.accept .plain

end IndexedLoop
