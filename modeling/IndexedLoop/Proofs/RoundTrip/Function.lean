import IndexedLoop.Proofs.RoundTrip.Opening
import IndexedLoop.Proofs.RoundTrip.Primary

/-!
# Blocks and functions

The statements of a block are read up to its closing brace. Behind the body of a function expression a
semicolon is inserted only in front of a closing brace, and it changes nothing there.
-/

namespace IndexedLoop

open Lexical Parse Grammar

/-- A semicolon that is inserted behind the body of a function leaves the mark where it is. -/
theorem reads_tryInserted_tail {k : Context} {t : Tail} (suits : t.mark.Suits k) {c : Cursor}
    (at_ : c.At k.operand.ended t.text) {post : Bool → Cursor → Prop} (next : ∀ b d, d.Meets t → post b d) :
    Reads (tryInserted k.operand) c post := by
  have sees := at_.sees
  rw [reads_tryInserted, sees.token]
  by_cases brace : t.mark = .close .brace
  · have view : View.of k.operand.ended t.text = ⟨.inserted, t.text, t.text⟩ := by
      rcases t with ⟨m, rest, fits⟩
      subst brace
      have text : (Tail.mk (.close .brace) rest fits).text = .char '\x7d' :: rest := Tail.text_brace rest
      rw [text]
      exact View.of_inserted rfl rfl
    rw [view] at sees
    rw [view, if_pos rfl]
    exact next _ _ ((Cursor.Behind.of_operand (sees.accept k.operand)).meets suits.brace)
  · have view : View.of k.operand.ended t.text = t.view :=
      t.view_of _ (fun _ => rfl) fun e => absurd e brace
    have written : t.view.token ≠ .inserted := by
      have : ∀ m ∈ Mark.all, m.token ≠ .inserted := by decide
      exact this _ t.mark.mem_all
    rw [view] at sees
    rw [view, if_neg written]
    exact next _ _ ⟨at_.rest, sees⟩

section

variable {rule : TargetRule} {g : Level} {n : Nat} (covers : g.Covers rule n)

include covers

/-! ## Blocks -/

theorem reads_statementsIn (slot : Bool → Slot) (rest : List Symbol) : (body : List Stmt) →
    canonicalStmts rule body → (∀ s ∈ body, s.text.length < n) → (isEmpty : Bool) → (rounds : List Symbol) →
    (c : Cursor) → (stmtsText body ++ .char '\x7d' :: rest).length < rounds.length →
    c.Starts (stmtsText body ++ .char '\x7d' :: rest) →
    Reads (statementsIn g slot isEmpty rounds) c fun ss d =>
      List.Forall₂ Surface.Stmt.Stands ss body ∧ d.At (slot (isEmpty && body.isEmpty)) rest
  | _, _, _, _, [], _, enough, _ => by simp at enough
  | [], _, _, isEmpty, x :: rounds, c, _, starts => by
    rw [stmtsText_nil, List.nil_append, Cursor.Starts, View.of_brace rfl] at starts
    have close : c.lexeme.isPunct "\x7d" = true := starts.isPunct "\x7d"
    simp only [statementsIn, reads_bind, reads_look, close, ↓reduceIte, reads_accept, reads_pure]
    exact ⟨.nil, by simpa using starts.accept (slot isEmpty)⟩
  | s :: body, h, short, isEmpty, x :: rounds, c, enough, starts => by
    rw [stmtsText_cons, List.append_assoc] at starts enough
    have opening := s.opening h.1 (stmtsText body ++ .char '\x7d' :: rest)
    have close : c.lexeme.isPunct "\x7d" = false := by
      rw [Cursor.Sees.isPunct starts, beq_eq_false_iff_ne]
      exact opening.ne_of_isLead (by decide) (by decide)
    have enough' : (stmtsText body ++ .char '\x7d' :: rest).length < rounds.length := by
      have := List.length_pos_iff.mpr (s.text_ne_nil h.1)
      simp only [List.length_append, List.length_cons] at enough ⊢
      omega
    simp only [statementsIn, reads_bind, reads_look, close, Bool.false_eq_true, ↓reduceIte, reads_pure]
    refine (covers.stmt h.1 (short s (by simp)) (next_stmtsText h.2 rest)
      (fun _ => stmtsText_ne_else h.2 rest) starts).mono fun s' d read => ?_
    refine (reads_statementsIn slot rest body h.2 (fun s hs => short s (by simp [hs])) false rounds d enough'
      read.2).mono fun ss d' more => ⟨.cons read.1 more.1, ?_⟩
    simpa using more.2

omit covers in
theorem length_le_stmtsText {s : Stmt} {body : List Stmt} (h : s ∈ body) :
    s.text.length ≤ (stmtsText body).length := by
  induction body with
  | nil => cases h
  | cons s' body ih =>
    rw [stmtsText_cons, List.length_append]
    rcases List.mem_cons.mp h with rfl | h
    · omega
    · have := ih h
      omega

/-- A block is read, and then the semicolon that may be inserted behind it. -/
theorem reads_blockWith {b : Block} (h : b.Canonical rule) (short : b.text.length ≤ n) {slot : Bool → Slot}
    {behind : Slot} {rest : List Symbol} {c : Cursor} (starts : c.Starts (b.text ++ rest))
    {post : Surface.Block → Cursor → Prop}
    (next : ∀ ss d, List.Forall₂ Surface.Stmt.Stands ss b.body → d.At (slot b.body.isEmpty) rest →
      Reads (tryInserted behind) d fun _ d' => ∀ x, post (.mk x ss) d') :
    Reads (blockWith g slot behind) c post := by
  obtain ⟨span, body⟩ := b
  have text : (Block.mk span body).text ++ rest =
      .char '\x7b' :: .char '\n' :: (stmtsText body ++ .char '\x7d' :: rest) := by
    simp [Block.text]
  rw [text, Cursor.Starts, View.of_openBrace] at starts
  have brace : c.lexeme.isPunct "\x7b" = true := starts.isPunct "\x7b"
  have inside := starts.accept .plain
  have first : (c.lexeme.stop.facing .plain).Starts (stmtsText body ++ .char '\x7d' :: rest) := by
    have seen := inside.starts
    rwa [Cursor.Starts, (next_stmtsText h rest).silent.view (by simp)] at seen
  have shorter : ∀ s ∈ body, s.text.length < n := by
    intro s mem
    have := length_le_stmtsText mem
    simp only [Block.text, List.length_cons, List.length_append] at short
    omega
  simp only [blockWith, reads_bind, reads_look, brace, reads_guard_true, reads_accept, reads_rounds,
    reads_extentFrom, reads_pure]
  refine (reads_statementsIn covers slot rest body h shorter true _ _ ?_ first).mono fun ss d read => ?_
  · rw [inside.rest]
    simp only [List.length_cons, List.length_append]
    omega
  · exact (next ss d read.1 (by simpa using read.2)).mono fun _ d' all => all _

/-! ## Functions -/

/-- The parameters and the body of a function are read, and then the semicolon that may be inserted. -/
theorem reads_functionTail {params : List Expr} {body : Block} (isParam : ∀ p ∈ params, p.IsParam)
    (h : body.Canonical rule) (short : (inParens (joined (params.map Expr.listed)) ++ body.text).length ≤ n)
    {slot : Slot} {rest : List Symbol} {c : Cursor}
    (starts : c.Starts (inParens (joined (params.map Expr.listed)) ++ (body.text ++ rest)))
    {post : Surface.Function → Cursor → Prop}
    (next : ∀ d, d.At slot.ended rest →
      Reads (tryInserted slot) d fun _ d' => ∀ fn, fn.Stands params body → post fn d') :
    Reads (functionTail g slot) c post := by
  obtain ⟨span, stmts⟩ := body
  simp only [inParens, List.length_append, List.length_cons] at short
  have shorter : ∀ p ∈ params, p.listed.length < n := by
    intro p mem
    have := length_le_joined (List.mem_map_of_mem (f := Expr.listed) mem)
    omega
  simp only [functionTail, reads_bind, reads_pure]
  refine (reads_params covers isParam shorter starts).mono fun bs d list => ?_
  refine reads_blockWith covers h (by omega) list.2.starts fun ss d' stand at_ => ?_
  exact (next d' at_).mono fun _ d'' all x => all _ (.mk list.1 (.mk stand))

/-- A function is an operand of its own. -/
theorem reads_primary_function {k : Context} {r : Reach} {t : Tail} {c : Cursor} {fn : Function}
    (h : (Expr.function fn).Canonical rule) (short : (Expr.function fn).text.length ≤ n)
    (follows : t.Follows k (.function fn)) (starts : c.Starts ((Expr.function fn).text ++ t.text)) :
    Reads (primary g k) c fun p d => Heads g k r p d (.function fn) t := by
  obtain ⟨span, id, params, body⟩ := fn
  let tail : List Symbol := inParens (joined (params.map Expr.listed)) ++ (body.text ++ t.text)
  have text : (Expr.function ⟨span, id, params, body⟩).text ++ t.text =
      Symbol.ofString "function" ++ .char ' ' :: (nameText id ++ tail) := by
    simp [tail, Expr.text_function, headText]
  rw [text, Cursor.Starts, View.of_keyword (by decide) (by simp [Breaks, breakChars])] at starts
  have inside := starts.accept .plain
  have tail_short : (inParens (joined (params.map Expr.listed)) ++ body.text).length ≤ n := by
    simp only [Expr.text_function, headText, List.length_append, List.length_cons] at short ⊢
    omega
  have rest {name : Option Surface.Name} (hid : name.map Surface.Name.text = id.map Identifier.name) {d : Cursor}
      (first : d.Starts tail) : Reads (functionTail g k.operand) d fun fn d => ∀ x,
        Heads g k r (.function x name fn) d (.function ⟨span, id, params, body⟩) t := by
    refine reads_functionTail covers h.2.1 h.2.2 tail_short first fun d at_ => ?_
    refine reads_tryInserted_tail follows.suits at_ fun _ d' meets fn stands x => ?_
    exact .whole (.function stands hid) meets follows (by simp)
  simp only [primary, reads_bind, reads_look, starts.token, wordExpr, reads_accept, functionExpr, reads_tryPunct,
    tryAnyWord, reads_extentFrom, reads_pure]
  cases id with
  | none =>
    have calm : Calm tail := Calm.of_char (c := '(') (by decide) (by decide) _
    have first : (c.lexeme.stop.facing .plain).Starts tail := inside.starts.of_space calm
    have token : (c.lexeme.stop.facing .plain).lexeme.token = .punct "(" := by
      rw [Cursor.Sees.token first]
      exact congrArg View.token (View.of_bracket (p := "(") (by decide) _)
    have star : (c.lexeme.stop.facing .plain).lexeme.isPunct "*" = false := by
      rw [Lexeme.isPunct, token]
      rfl
    simp only [star, Bool.false_eq_true, ↓reduceIte, token, reads_pure]
    exact (rest rfl first).mono fun _ _ all => all _
  | some name =>
    have binding : name.IsBinding := h.1 name rfl
    have stop : Breaks tail := by simp [tail, inParens, Breaks, breakChars]
    have calm : Calm (name.text ++ tail) :=
      Calm.of_name binding.1.1 binding.1.not_operator stop.wordPiece_eq
    have first : (c.lexeme.stop.facing .plain).Starts (name.text ++ tail) := inside.starts.of_space calm
    rw [Cursor.Starts, View.of_identifier binding.1.1 stop] at first
    have star : (c.lexeme.stop.facing .plain).lexeme.isPunct "*" = false := first.isPunct "*"
    simp only [star, Bool.false_eq_true, ↓reduceIte, first.token, Parse.word, reads_bind, reads_look, reads_accept,
      reads_pure]
    refine (rest ?_ (first.accept .plain).starts).mono fun _ _ all => all _
    rfl

end

end IndexedLoop
