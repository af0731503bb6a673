import IndexedLoop.Proofs.RoundTrip.Declaration

/-!
# Headers of loops

The three clauses of a `for` header are read (`reads_header`). A header that runs over something starts
alike, but the word `in` or `of` is not seen behind the first operand or variable of these texts.
-/

namespace IndexedLoop

open Lexical Parse Grammar

variable {g : Level} {n : Nat} {rule : TargetRule}

/-- Nothing to run over stands in front of other words. -/
theorem yields_eachTail {c : Cursor} (isIn : c.lexeme.isWord "in" = false) (isOf : c.lexeme.isWord "of" = false)
    {post : Header → Cursor → Prop} : Yields (eachTail g) c post := by
  simp [eachTail, isIn, isOf]

/-- What was read in patterns does not change what is seen. -/
theorem Cursor.token_withPending (c : Cursor) (ps : List Place) :
    ({ c with pending := ps } : Cursor).lexeme.token = c.lexeme.token :=
  congrArg View.token
    ((lexeme_view { c with pending := ps }).trans (lexeme_view c).symm)

theorem Mark.not_loopWord {m : Mark} (h : m.isClose = true ∨ m = .assign .assign) :
    (m.token == .word "in") = false ∧ (m.token == .word "of") = false := by
  have : ∀ m ∈ all, m.isClose = true ∨ m = .assign .assign →
      (m.token == .word "in") = false ∧ (m.token == .word "of") = false := by decide
  exact this m m.mem_all h

section

variable (covers : g.Covers rule n)

include covers

/-- Expressions in parentheses are read. -/
theorem reads_condition {e : Expr} (h : e.Canonical rule) (short : e.text.length < n) {rest : List Symbol}
    {c : Cursor} (at_ : c.At .plain (.char ' ' :: .char '(' :: (e.text ++ .char ')' :: rest))) :
    Reads (condition g) c fun s d => s.Stands e ∧ d.At .plain rest := by
  have calm : Calm (.char '(' :: (e.text ++ .char ')' :: rest)) := Calm.of_char (by decide) (by decide) _
  have starts := at_.starts.of_space calm
  rw [← Tail.text_called] at starts
  have sees := starts.tail (by simp [Tail.called])
  have inside := sees.accept .plain
  simp only [condition, reads_bind, reads_expect]
  refine ⟨sees.isPunct "(", reads_enclosed covers (show Closer.paren ≠ .comma by decide) .plain h short ?_⟩
  rw [Tail.text_paren]
  exact inside.starts

/-! ## Clauses -/

/-- A clause of a header is read up to its end. -/
theorem reads_clause {closer : Closer} (mark : closer = .semicolon ∨ closer = .paren) {e : Option Expr}
    (h : canonicalOption rule e) (short : (optionText e).length < n) {rest : List Symbol} {c : Cursor}
    (starts : c.Starts (optionText e ++ (Tail.closed closer rest).text)) :
    Reads (clause g closer.sign) c fun s d => Surface.Expr.ElementStands s e ∧ d.At .plain rest := by
  cases e with
  | none =>
    have sees := Cursor.Starts.tail (t := .closed closer rest) starts (by simp [Tail.closed])
    have close : c.lexeme.isPunct closer.sign = true := by
      rw [sees.isPunct]
      exact beq_self_eq_true _
    simp only [clause, reads_bind, reads_look, close, ↓reduceIte, reads_accept, reads_pure]
    exact ⟨trivial, sees.accept .plain⟩
  | some e =>
    have lead := e.lead h (.closed closer rest) fun _ => by simp [Tail.closed]
    have close : c.lexeme.isPunct closer.sign = false := by
      rw [Cursor.Sees.isPunct starts, beq_eq_false_iff_ne]
      refine Token.ne_of_isLead lead.isLead ?_
      rcases mark with rfl | rfl <;> decide
    simp only [clause, reads_bind, reads_look, close, Bool.false_eq_true, ↓reduceIte, reads_pure]
    refine reads_enclosed covers ?_ .plain h short starts
    rcases mark with rfl | rfl <;> decide

/-- The text of the clauses behind the first one. -/
def clausesText (test update : Option Expr) (rest : List Symbol) : List Symbol :=
  optionText test ++ .char ';' :: (optionText update ++ .char ')' :: rest)

/-- The header stands for three clauses. -/
def Grammar.Header.Stands (h : Header) (init : Option ForInit) (test update : Option Expr) : Prop :=
  ∃ i t u, h = .clauses i t u ∧ Surface.ForInit.Stands i init ∧ Surface.Expr.ElementStands t test ∧
    Surface.Expr.ElementStands u update

/-- The other clauses are read behind the first one. -/
theorem reads_clausesTail {s : Option Surface.ForInit} {init : Option ForInit} (first : Surface.ForInit.Stands s init)
    {test update : Option Expr} (ht : canonicalOption rule test) (hu : canonicalOption rule update)
    {rest : List Symbol} (short_test : (optionText test).length < n) (short_update : (optionText update).length < n)
    {c : Cursor} (at_ : c.At .plain (clausesText test update rest)) :
    Reads (clausesTail g s) c fun h d => h.Stands init test update ∧ d.At .plain rest := by
  have starts := at_.starts
  rw [clausesText, ← Tail.text_paren, ← Tail.text_semicolon] at starts
  simp only [clausesTail, reads_bind, reads_pure]
  refine (reads_clause covers (.inl rfl) ht short_test starts).mono fun t d read => ?_
  refine (reads_clause covers (.inr rfl) hu short_update read.2.starts).mono fun u d' read' => ?_
  exact ⟨⟨s, t, u, rfl, first, read.1, read'.1⟩, read'.2⟩

end

/-! ## Headers that start with a declaration -/

section

variable (covers : g.Covers rule n) {test update : Option Expr} (ht : canonicalOption rule test)
  (hu : canonicalOption rule update) (short_test : (optionText test).length < n)
  (short_update : (optionText update).length < n) {rest : List Symbol}

include covers ht hu short_test short_update

/-- Behind the first variable the others are read, and then the clauses. -/
theorem reads_declarationHeader {span : Span} {kind : DeclKind} {v : Declarator} {vs : List Declarator}
    (h : canonicalDeclarators rule vs) (short : (joined ((v :: vs).map Declarator.text)).length ≤ n)
    {s : Surface.Declarator} (first : s.Stands v) {start : Place} {c : Cursor}
    (meets : c.Meets ((Tail.closed .semicolon (clausesText test update rest)).behind (vs.map Declarator.text))) :
    Reads (declarationHeader g start kind s) c fun h d =>
      h.Stands (some (.declaration ⟨span, kind, v :: vs⟩)) test update ∧ d.At .plain rest := by
  have clauses {ds : List Surface.Declarator} (stand : List.Forall₂ Surface.Declarator.Stands ds vs) {d : Cursor}
      (meets : d.Meets (.closed .semicolon (clausesText test update rest))) :
      Reads (do
        semicolon
        let declaration : Surface.Declaration := .mk (← extentFrom start) kind (s :: ds)
        clausesTail g (some (.declaration declaration))) d fun h d =>
          h.Stands (some (.declaration ⟨span, kind, v :: vs⟩)) test update ∧ d.At .plain rest := by
    simp only [reads_bind, reads_extentFrom]
    refine reads_semicolon meets fun d' at_ => ?_
    exact reads_clausesTail covers (.declaration (.mk (.cons first stand))) ht hu short_test short_update at_
  simp only [declarationHeader, reads_bind, reads_tryPunct]
  cases vs with
  | nil =>
    have comma : c.lexeme.isPunct "," = false := meets.isPunct ","
    simp only [comma, Bool.false_eq_true, ↓reduceIte, reads_bind, reads_pure]
    simpa only [reads_bind] using clauses .nil meets
  | cons v' vs =>
    have comma : c.lexeme.isPunct "," = true := meets.isPunct ","
    have shorter : (joined ((v' :: vs).map Declarator.text)).length ≤ n := by
      simp only [List.map_cons, joined, List.length_append, List.length_cons] at short ⊢
      omega
    simp only [comma, ↓reduceIte, reads_bind]
    refine (reads_declarators covers (by simp) h shorter (meets.accept .plain)).mono fun ds d read => ?_
    simpa only [reads_bind] using clauses read.1 read.2

end

/-- Behind the name of a variable no loop runs over something. -/
theorem Declarator.not_loopWord {v : Declarator} {t : Tail} (separator : t.mark.isSeparator = true) :
    ((v.tail t).mark.token == .word "in") = false ∧ ((v.tail t).mark.token == .word "of") = false := by
  refine Mark.not_loopWord ?_
  unfold tail
  split
  · exact .inl (Mark.isClose_of_separator separator)
  · exact .inr rfl

/-- The name of the first variable is read. Behind it no loop runs over something. -/
theorem reads_firstBinding {v : Declarator} {vs : List Declarator} (h : canonicalDeclarators rule (v :: vs)) {t : Tail}
    (separator : t.mark.isSeparator = true) {slot : Slot} {c : Cursor}
    (at_ : c.At .plain (.char ' ' :: (joined ((v :: vs).map Declarator.text) ++ t.text))) :
    Reads (binding g slot) c fun b d => (∃ y, b = .name ⟨y, v.id.name⟩) ∧
      d.Meets (v.tail (t.behind (vs.map Declarator.text))) ∧
        d.lexeme.isWord "in" = false ∧ d.lexeme.isWord "of" = false := by
  have behind := Tail.isSeparator_behind separator (vs.map Declarator.text)
  have starts := at_.starts.of_space (calm_declarators (by simp) h _)
  rw [canonicalDeclarators_cons] at h
  rw [List.map_cons, joined_cons, v.text_tail] at starts
  refine (reads_binding h.1 starts).mono ?_
  rintro b d ⟨name, at_⟩
  obtain ⟨ask, brace⟩ := Declarator.mark_tail (v := v) behind
  obtain ⟨isIn, isOf⟩ := Declarator.not_loopWord (v := v) behind
  have meets := at_.meets ask brace
  exact ⟨name, meets, (meets.isWord "in").trans isIn, (meets.isWord "of").trans isOf⟩

section

variable (covers : g.Covers rule n) {test update : Option Expr} (ht : canonicalOption rule test)
  (hu : canonicalOption rule update) (short_test : (optionText test).length < n)
  (short_update : (optionText update).length < n) {rest : List Symbol} {span : Span} {kind : DeclKind}
  {v : Declarator} {vs : List Declarator} (h : canonicalDeclarators rule (v :: vs))
  (short : (joined ((v :: vs).map Declarator.text)).length ≤ n) {start : Place} {c : Cursor}
  (at_ : c.At .plain (.char ' ' :: (joined ((v :: vs).map Declarator.text) ++
    (Tail.closed .semicolon (clausesText test update rest)).text)))

include covers ht hu short_test short_update h short at_

/-- A header that declares with `var` is read behind the word. -/
theorem reads_varHeader : Reads (varHeader g false start) c fun h d =>
    h.Stands (some (.declaration ⟨span, .var, v :: vs⟩)) test update ∧ d.At .plain rest := by
  let t : Tail := (Tail.closed .semicolon (clausesText test update rest)).behind (vs.map Declarator.text)
  have separator : t.mark.isSeparator = true := Tail.isSeparator_behind rfl _
  have header {s : Surface.Declarator} (first : s.Stands v) {d : Cursor} (meets : d.Meets t) :
      Reads (declarationHeader g start .var s) d fun h d =>
        h.Stands (some (.declaration ⟨span, .var, v :: vs⟩)) test update ∧ d.At .plain rest :=
    reads_declarationHeader covers ht hu short_test short_update (canonicalDeclarators_cons.mp h).2.2 short first meets
  have length := length_le_joined (l := (v :: vs).map Declarator.text) (s := v.text) (by simp)
  simp only [varHeader, Bool.not_false, reads_bind, reads_look]
  refine (reads_firstBinding h rfl at_).mono ?_
  rintro b d ⟨⟨y, rfl⟩, meets, isIn, isOf⟩
  rw [canonicalDeclarators_cons] at h
  obtain ⟨span', id, init⟩ := v
  cases init with
  | none =>
    have equals : d.lexeme.isPunct "=" = false := by
      have : ∀ m ∈ Mark.all, m.isSeparator = true → (m.token == .punct "=") = false := by decide
      rw [meets.isPunct]
      exact this _ t.mark.mem_all separator
    simp only [equals, isIn, isOf, Bool.or_self, Bool.false_eq_true, ↓reduceIte, reads_bind, reads_guard_true]
    exact header ⟨_, y, none, rfl, trivial⟩ meets
  | some e =>
    have equals : d.lexeme.isPunct "=" = true := meets.isPunct "="
    have close := Mark.isClose_of_separator separator
    have lead := Expr.lead_listed h.2.1 t (by rintro e; simp [e, Mark.isClose] at close)
    simp only [Declarator.text, List.length_append, List.length_cons] at length
    simp only [equals, ↓reduceIte, reads_bind, reads_accept]
    refine reads_orElse_left ?_
    simp only [reads_bind, reads_look]
    refine (covers.expr h.2.1 (.listed e) (by omega) close (Mark.suits_of_separator separator _) rfl
      ((meets.accept .plain).starts.of_space lead.calm)).mono fun value d' read => ?_
    have isOf : d'.lexeme.isWord "of" = false := by
      rw [read.2.isWord]
      exact (Mark.not_loopWord (.inl close)).2
    simp only [isOf, Bool.false_eq_true, ↓reduceIte, reads_bind, reads_guard_true, reads_extentFrom]
    exact header ⟨_, y, some value, rfl, read.1⟩ read.2

/-- A header that declares with another word is read behind it. -/
theorem reads_lexicalHeader : Reads (lexicalHeader g false start kind) c fun h d =>
    h.Stands (some (.declaration ⟨span, kind, v :: vs⟩)) test update ∧ d.At .plain rest := by
  have separator := Tail.isSeparator_behind (t := .closed .semicolon (clausesText test update rest)) rfl
    (vs.map Declarator.text)
  have length := length_le_joined (l := (v :: vs).map Declarator.text) (s := v.text) (by simp)
  simp only [lexicalHeader, reads_bind]
  refine (reads_firstBinding h rfl at_).mono ?_
  rintro b d ⟨⟨y, rfl⟩, meets, isIn, isOf⟩
  rw [canonicalDeclarators_cons] at h
  have inserted : d.lexeme.token ≠ .inserted := by
    have : ∀ m ∈ Mark.all, m.token ≠ .inserted := by decide
    rw [meets.token]
    exact this _ (Mark.mem_all _)
  refine reads_orElse_right ?_ ?_
  · simp only [yields_bind, yields_tryInserted, inserted, ↓reduceIte]
    exact yields_eachTail isIn isOf
  · simp only [Bool.not_false, reads_bind, reads_guard_true, reads_extentFrom]
    refine (reads_initializer covers h.2.1 (by omega) separator meets).mono fun init d' read => ?_
    exact reads_declarationHeader covers ht hu short_test short_update h.2.2 short ⟨_, y, init, rfl, read.1⟩ read.2

end

/-! ## Headers that start with an expression -/

section

variable (covers : g.Covers definedTarget n) {test update : Option Expr} (ht : canonicalOption definedTarget test)
  (hu : canonicalOption definedTarget update) (short_test : (optionText test).length < n)
  (short_update : (optionText update).length < n) {rest : List Symbol}

include covers ht hu short_test short_update

/-- A header whose first clause is an expression is read. -/
theorem reads_operandHeader {e : Expr} (h : e.Canonical definedTarget) (short : e.text.length < n) {c : Cursor}
    (starts : c.Starts (e.text ++ (Tail.closed .semicolon (clausesText test update rest)).text)) :
    Reads (operandHeader g false) c fun h d =>
      h.Stands (some (.expression e)) test update ∧ d.At .plain rest := by
  let t : Tail := .closed .semicolon (clausesText test update rest)
  have suits : t.mark.Suits .loopHeader := .of_ne _ (by simp [t, Tail.closed]) (by simp [t, Tail.closed])
  have parts (p : Expr) (hp : p ∈ e.parts.1 :: e.parts.2) : p.listed.length < n :=
    Nat.lt_of_le_of_lt (e.length_parts h hp) short
  rw [e.text_parts h] at starts
  simp only [operandHeader, reads_bind]
  refine (reads_listed covers (m := n - 1) (by omega) ?_ (e.parts_canonical h).1 ?_ (Tail.isClose_behind rfl _)
    (Tail.suits_behind suits _) starts).mono ?_
  · intro e text t c h length shows_ boundary suits starts
    exact covers.unary h (by omega) shows_ boundary suits (by simp) starts
  · have := parts e.parts.1 (by simp)
    omega
  rintro first d ⟨⟨t', meets, suits'⟩, whole⟩
  refine reads_orElse_right ?_ ?_
  · -- The word of a loop is not the mark behind the operand, and not what is seen without one.
    have isIn (token : t'.mark.token = .word "in") : False := suits'.header rfl _ (Mark.eq_of_token_in token)
    have isOf := t'.mark.token_ne.1
    simp only [yields_bind, yields_guard]
    intro _
    split
    · simp only [yields_bind, yields_face, settle, yields_modify]
      refine yields_eachTail ?_ ?_
      · rw [Lexeme.isWord, Cursor.token_withPending]
        exact Heads.plain_token meets (by simp) isIn
      · rw [Lexeme.isWord, Cursor.token_withPending]
        exact Heads.plain_token meets (by simp) isOf
    · simp only [yields_bind, settle, yields_modify]
      refine yields_eachTail ?_ ?_
      · rw [Lexeme.isWord, Cursor.token_withPending, meets.token, beq_eq_false_iff_ne]
        exact isIn
      · rw [Lexeme.isWord, Cursor.token_withPending, meets.token, beq_eq_false_iff_ne]
        exact isOf
  · simp only [Bool.not_false, reads_bind, reads_guard_true]
    refine whole.mono fun s d' rest_ => rest_.mono fun s' d'' read => ?_
    refine (reads_sequenceFrom covers (t := t) rfl (by simp [t, Tail.closed]) suits h
      (fun p hp => parts p (by simp [hp])) read.1 read.2).mono fun s'' d3 all => ?_
    rw [reads_expect]
    refine ⟨all.2.isPunct ";", ?_⟩
    exact reads_clausesTail covers (.expression all.1) ht hu short_test short_update (all.2.accept .plain)

/-- A header with three clauses is read behind its parenthesis. -/
theorem reads_header {init : Option ForInit} (h : canonicalForInit definedTarget init)
    (short : (initText init).length < n) {c : Cursor}
    (at_ : c.At .plain (initText init ++ .char ';' :: clausesText test update rest)) :
    Reads (header g false) c fun h d => h.Stands init test update ∧ d.At .plain rest := by
  have operand (kinds : ∀ kind : DeclKind, c.lexeme.token ≠ .word kind.token) : headerKind? c.lexeme = none := by
    have isLet : c.lexeme.isWord "let" = false := by
      rw [Lexeme.isWord, beq_eq_false_iff_ne]
      exact kinds .lexical
    simp only [headerKind?, isLet, Bool.false_and, Bool.false_eq_true, ↓reduceIte]
    exact declarationKind?_eq_none kinds
  cases init with
  | none =>
    have starts := at_.starts
    rw [initText, List.nil_append, Cursor.Starts, View.of_semicolon] at starts
    have kinds (kind : DeclKind) : c.lexeme.token ≠ .word kind.token := by
      rw [starts.token]
      simp
    have close : c.lexeme.isPunct ";" = true := starts.isPunct ";"
    simp only [header, reads_bind, reads_look, operand kinds, close, Bool.not_false, Bool.and_self, ↓reduceIte,
      reads_accept]
    exact reads_clausesTail covers .none ht hu short_test short_update (starts.accept .plain)
  | some init =>
    cases init with
    | expression e =>
      have starts := at_.starts
      rw [initText, ← Tail.text_semicolon] at starts
      have lead := e.lead h (.closed .semicolon (clausesText test update rest)) fun _ => by simp [Tail.closed]
      have kinds (kind : DeclKind) : c.lexeme.token ≠ .word kind.token := by
        rw [Cursor.Sees.token starts]
        cases kind with
        | var => exact lead.ne_word (by decide) (by decide)
        | lexical => exact lead.ne_word (by decide) (by decide)
        | constant => exact lead.ne_word (by decide) (by decide)
      have close : c.lexeme.isPunct ";" = false := by
        rw [Cursor.Sees.isPunct starts, beq_eq_false_iff_ne]
        exact Token.ne_of_isLead lead.isLead (by decide)
      simp only [header, reads_bind, reads_look, operand kinds, close, Bool.false_and, Bool.false_eq_true, ↓reduceIte]
      exact reads_operandHeader covers ht hu short_test short_update h short starts
    | declaration d =>
      obtain ⟨declares, inside⟩ := at_.starts.declares h
      have kind : headerKind? c.lexeme = some d.kind := by
        obtain ⟨id, isBinding, next⟩ := declares.name
        have isOf : (c.lexeme.next Context.loopHeader.keyword).isWord "of" = false := by
          rw [Lexeme.isWord, next _ rfl, beq_eq_false_iff_ne]
          intro e
          exact isBinding.1.2 (Token.word.inj e ▸ by decide)
        simp only [headerKind?, isOf, Bool.and_false, Bool.false_eq_true, ↓reduceIte]
        exact declares.declarationKind? rfl
      obtain ⟨span, kind_, vs⟩ := d
      cases vs with
      | nil => exact absurd rfl h.1
      | cons v vs =>
        simp only [initText, Declaration.text, List.length_append, List.length_cons] at short
        rw [← Tail.text_semicolon] at inside
        simp only [header, reads_bind, reads_look, kind]
        cases kind_ with
        | var =>
          simp only [reads_bind, reads_accept]
          exact reads_varHeader covers ht hu short_test short_update h.2 (by omega) inside
        | lexical =>
          simp only [Bool.false_and, Bool.false_eq_true, ↓reduceIte, reads_bind, reads_accept]
          exact reads_lexicalHeader covers ht hu short_test short_update h.2 (by omega) inside
        | constant =>
          simp only [Bool.false_and, Bool.false_eq_true, ↓reduceIte, reads_bind, reads_accept]
          exact reads_lexicalHeader covers ht hu short_test short_update h.2 (by omega) inside

end

end IndexedLoop
