import IndexedLoop.Proofs.RoundTrip.Declaration

/-!
# Blocks as statements

A statement that starts with a brace could also be an object literal. The texts of blocks are read as blocks
(`reads_braceStatement`): no statement starts like a member of an object with a colon or a modifier, and behind
an expression a semicolon is written, so no block looks like an object with a method.
-/

namespace IndexedLoop

open Lexical Parse Grammar

/-! ## First tokens -/

/-- Where a statement may end, the mark behind an operand is seen, or a semicolon is inserted. -/
theorem Tail.token_operand (t : Tail) : (View.of Context.statement.operand t.text).token = .inserted ∨
    (View.of Context.statement.operand t.text).token = t.mark.token := by
  by_cases brace : t.mark = .close .brace
  · left
    rcases t with ⟨m, rest, fits⟩
    subst brace
    have text : (Tail.mk (.close .brace) rest fits).text = .char '\x7d' :: rest := Tail.text_brace rest
    rw [text, View.of_inserted rfl rfl]
  · right
    rw [t.view_of _ (fun _ => rfl) fun e => absurd e brace]
    rfl

theorem Mark.eq_of_token_colon {m : Mark} (h : m.token = .punct ":") : m = .close .colon := by
  have : ∀ m ∈ all, m.token = .punct ":" → m = .close .colon := by decide
  exact this m m.mem_all h

namespace Opening

variable {s : List Symbol} (h : Opening s)

include h

theorem staticGet?_eq : staticGet? s = none := by
  have word {w : String} (isName : IsName w.toList) (other : w ≠ "static") {rest : List Symbol} (stop : Breaks rest) :
      staticGet? (Symbol.ofString w ++ rest) = none := by
    refine staticGet?_name isName stop fun e => ?_
    exact absurd (String.toList_inj.mp e) other
  cases h with
  | @keyword w rest mem stop _ =>
    refine word (keywords_isName (statementWords_keywords w mem)).1 ?_ stop
    rintro rfl
    exact absurd mem (by decide)
  | semicolon rest => exact staticGet?_char (by decide) rest
  | brace rest => exact staticGet?_char (by decide) rest
  | expression lead =>
    cases lead with
    | @name id t reference _ =>
      refine word reference.1 ?_ t.breaks
      intro e
      exact reference.2 (e ▸ by decide)
    | @keyword w rest mem stop _ =>
      refine word (leadWords_isName mem).1 ?_ stop
      rintro rfl
      exact absurd mem (by decide)
    | @number p rest _ _ =>
      obtain ⟨c, more, text, digit, -⟩ := p.exists_text_eq
      rw [text, List.map_cons, List.cons_append]
      refine staticGet?_char ?_ _
      rintro rfl
      cases digit
    | string _ => exact staticGet?_char (by decide) _
    | regex _ => exact staticGet?_char (by decide) _
    | @bracket p rest mem =>
      simp only [List.mem_cons, List.not_mem_nil, or_false] at mem
      rcases mem with rfl | rfl | rfl <;> exact staticGet?_char (by decide) _
    | @unary op rest => cases op <;> exact staticGet?_char (by decide) _
    | @update op a rest _ => cases op <;> exact staticGet?_char (by decide) _

variable {c : Cursor} (starts : c.Starts s)

include starts

/-- No statement starts with a label. -/
theorem not_label {w : String} (token : c.lexeme.token = .word w) : isLabel c.lexeme w = false := by
  have seen := Cursor.Sees.token starts
  rw [token] at seen
  have keyword (h : (Token.word w).isStatementKeyword = true) : isLabel c.lexeme w = false := by
    simp [isLabel, token, h]
  cases h with
  | @keyword w' rest mem stop name =>
    rw [Cursor.Starts, View.of_keyword (statementWords_keywords w' mem) stop] at starts
    rw [View.of_keyword (statementWords_keywords w' mem) stop] at seen
    cases seen
    by_cases isLet : w = "let"
    · obtain ⟨id, t, isBinding, rfl⟩ := name isLet
      have behind := (starts.accept .wide).sees
      have calm := isBinding.calm t
      rw [calm.view_space, calm.view_words rfl, View.of_identifier isBinding.1.1 t.breaks] at behind
      have colon : (c.lexeme.next .wide).isPunct ":" = false := behind.isPunct ":"
      subst isLet
      have soft : softKeywords.contains "let" = true := rfl
      simp only [isLabel, soft, ↓reduceIte, colon, Bool.and_false]
    · have : ∀ w ∈ statementWords, w ≠ "let" → (Token.word w).isStatementKeyword = true := by decide
      exact keyword (this w mem isLet)
  | semicolon rest =>
    rw [View.of_semicolon] at seen
    cases seen
  | brace rest =>
    rw [View.of_openBrace] at seen
    cases seen
  | expression lead =>
    have leads := lead.token
    generalize (View.of .plain s).token = first at leads seen
    cases leads with
    | @name id t reference mark text =>
      cases seen
      rw [Cursor.Starts, text, View.of_identifier reference.1 t.breaks] at starts
      have soft : softKeywords.contains id.name = false := by
        have : ∀ w ∈ softKeywords, w ∈ reservedWords := by decide
        rw [Bool.eq_false_iff]
        intro mem
        exact reference.2 (this _ (by simpa using mem))
      have colon : (c.lexeme.next Context.statement.operand).isPunct ":" = false := by
        rw [Lexeme.isPunct, beq_eq_false_iff_ne]
        show (c.lexeme.stop.facing Context.statement.operand).lexeme.token ≠ _
        rw [(starts.accept Context.statement.operand).sees.token]
        intro e
        rcases t.token_operand with view | view
        · rw [view] at e
          cases e
        · rw [view] at e
          have colon := Mark.eq_of_token_colon e
          rcases mark with same | other
          · rw [colon] at same
            cases same
          · exact other colon
      simp only [isLabel, soft, Bool.false_eq_true, ↓reduceIte, colon, Bool.and_false]
    | keyword mem _ =>
      cases seen
      have : ∀ w ∈ leadWords, (Token.word w).isStatementKeyword = true := by decide
      exact keyword (this w mem)
    | unary op => cases op <;> cases seen <;> exact keyword (by decide)
    | _ => cases seen

end Opening

/-! ## Braces -/

/-- The brace in front of statements opens a block, or only the whole tells. -/
theorem braceForm_eq {rule : TargetRule} {body : List Stmt} (h : canonicalStmts rule body) {l : Lexeme}
    {rest : List Symbol} (starts : (l.stop.facing .plain).Starts (stmtsText body ++ .char '\x7d' :: rest)) :
    braceForm l = .block ∨ braceForm l = .unclear := by
  cases body with
  | nil =>
    rw [stmtsText_nil, List.nil_append, Cursor.Starts, View.of_brace rfl] at starts
    have token : (l.next .plain).token = .punct "\x7d" := starts.token
    have start : (l.next .plain).start.rest = .char '\x7d' :: rest := starts.start
    right
    simp [braceForm, token, start, staticGet?_char (c := '\x7d') (by decide) rest]
  | cons s body =>
    rw [stmtsText_cons, List.append_assoc] at starts
    have opening := s.opening h.1 (stmtsText body ++ .char '\x7d' :: rest)
    have start : (l.next .plain).start.rest = s.text ++ (stmtsText body ++ .char '\x7d' :: rest) := by
      have := Cursor.Sees.start starts
      rwa [opening.calm.view] at this
    have isStatic : (staticGet? (l.next .plain).start.rest).isSome = false := by
      rw [start, opening.staticGet?_eq]
      rfl
    have label {w : String} (token : (l.next .plain).token = .word w) : isLabel (l.next .plain) w = false :=
      opening.not_label starts token
    have sign {p : String} (other : (Token.punct p).isLead = false) (semicolon : p ≠ ";") :
        (l.next .plain).token ≠ .punct p := by
      show (l.stop.facing .plain).lexeme.token ≠ _
      rw [Cursor.Sees.token starts]
      exact opening.ne_of_isLead other (by simpa using semicolon)
    simp only [braceForm, isStatic, Bool.false_eq_true, ↓reduceIte]
    split
    · rename_i w token
      have label := label token
      simp only [isLabel, Bool.and_eq_false_iff, Bool.not_eq_false'] at label
      split
      · exact .inl rfl
      · rename_i other
        rcases label with keyword | colon
        · exact absurd keyword other
        · right
          simp only [colon, Bool.false_eq_true, ↓reduceIte]
    · exact .inr rfl
    · exact .inr rfl
    · exact .inr rfl
    · rename_i p token
      have object : [",", "...", "*"].contains p = false := by
        rw [Bool.eq_false_iff]
        intro mem
        simp only [List.contains_eq_mem, List.mem_cons, List.not_mem_nil, or_false, decide_eq_true_eq] at mem
        rcases mem with rfl | rfl | rfl
        · exact sign (by decide) (by decide) token
        · exact sign (by decide) (by decide) token
        · exact sign (by decide) (by decide) token
      simp only [object, Bool.false_eq_true, ↓reduceIte]
      split
      · exact .inr rfl
      · exact .inl rfl
    · exact .inl rfl

/-- No star stands behind the first word in a block. -/
theorem opensWithStar_eq {rule : TargetRule} {body : List Stmt} (h : canonicalStmts rule body) {l : Lexeme}
    {rest : List Symbol} (starts : (l.stop.facing .plain).Starts (stmtsText body ++ .char '\x7d' :: rest)) :
    opensWithStar l = false := by
  have other {w : String} (reserved : w ∈ reservedWords) (operand : w ∉ operandWords)
      (statement : w ∉ statementWords) : (l.next .plain).isWord w = false := by
    have word : (l.next .plain).isWord w = _ := Cursor.Sees.isWord starts w
    rw [word, beq_eq_false_iff_ne]
    cases body with
    | nil =>
      rw [stmtsText_nil, List.nil_append, View.of_brace rfl]
      simp
    | cons s body =>
      rw [stmtsText_cons, List.append_assoc]
      exact (s.opening h.1 _).ne_word reserved operand statement
  have async := other (w := "async") (by decide) (by decide) (by decide)
  have static := other (w := "static") (by decide) (by decide) (by decide)
  simp only [opensWithStar, async, static, Bool.or_self, Bool.false_and]

/-- The first way counts where nothing is in doubt. -/
theorem reads_contest {α : Type} {first second : Parse α} {doubtful : Cursor → α → Cursor → Bool}
    {prefers : Parse Bool} {c : Cursor} {post : α → Cursor → Prop}
    (h : Reads first c fun a d => doubtful c a d = false ∧ post a d) :
    Reads (contest first second doubtful prefers) c post := by
  obtain ⟨a, d, run, clear, hp⟩ := h
  refine ⟨a, d, ?_, hp⟩
  simp [contest, run, clear]

/-- A block that stands for one does not look like an object literal with a method. -/
theorem looksLikeMethod_eq {x : Extent} {ss : List Surface.Stmt} {stmts : List Stmt}
    (h : List.Forall₂ Surface.Stmt.Stands ss stmts) : looksLikeMethod (.block (.mk x ss)) = false := by
  unfold looksLikeMethod
  split
  · rename_i block
    cases block
    cases h with
    | cons first _ => exact absurd (first.closed _ _ _ rfl) (by decide)
  · rfl

section

variable {rule : TargetRule} {g : Level} {n : Nat} (covers : g.Covers rule n)

include covers

theorem reads_blockStatement {b : Block} (h : b.Canonical rule) (short : b.text.length ≤ n) {rest : List Symbol}
    (next : Next rest) {c : Cursor} (starts : c.Starts (b.text ++ rest)) :
    Reads (blockStatement g false) c fun s d =>
      (∃ x ss, s = .block (.mk x ss) ∧ List.Forall₂ Surface.Stmt.Stands ss b.body) ∧ d.Starts rest := by
  have opens := next.opens
  simp only [blockStatement, reads_bind, reads_look]
  refine reads_blockWith covers h short starts fun ss d stand at_ => ?_
  have slot : (if b.body.isEmpty = true then Slot.wide else Slot.ending).ends = true ∧
      (if b.body.isEmpty = true then Slot.wide else Slot.ending).words = true := by
    split <;> exact ⟨rfl, rfl⟩
  refine reads_tryInserted_plain (next.behindBrace slot.1 slot.2) at_ fun _ d' starts' x => ?_
  have token := Cursor.Sees.token starts'
  have continues : d'.lexeme.token.continuesOperand false = false := by
    rw [token]
    exact opens.continues
  have equals : d'.lexeme.isPunct "=" = false := by
    rw [Lexeme.isPunct, token, beq_eq_false_iff_ne]
    exact opens.equals
  cases ss with
  | nil =>
    simp only [reads_bind, reads_get, continues, equals, Bool.or_self, Bool.and_false, Bool.false_eq_true, ↓reduceIte,
      reads_pure]
    exact ⟨⟨x, [], rfl, stand⟩, starts'⟩
  | cons s ss =>
    simp only [reads_bind, continues, equals, Bool.and_false, Bool.not_false, reads_guard_true, reads_pure]
    exact ⟨⟨x, s :: ss, rfl, stand⟩, starts'⟩

/-- The text of a block is read as a block. -/
theorem reads_braceStatement {b : Block} (h : b.Canonical rule) (short : b.text.length ≤ n) {rest : List Symbol}
    (next : Next rest) {c : Cursor} (starts : c.Starts (b.text ++ rest)) :
    Reads (braceStatement g false c.lexeme) c fun s d => s.Stands (.block b) ∧ d.Starts rest := by
  have read := reads_blockStatement covers h short next starts
  obtain ⟨span, body⟩ := b
  have stands {x : Extent} {ss : List Surface.Stmt} (stand : List.Forall₂ Surface.Stmt.Stands ss body) :
      (Surface.Stmt.block (.mk x ss)).Stands (.block ⟨span, body⟩) :=
    .block (.mk stand)
  have first : (c.lexeme.stop.facing .plain).Starts (stmtsText body ++ .char '\x7d' :: rest) := by
    have text : (Block.mk span body).text ++ rest =
        .char '\x7b' :: .char '\n' :: (stmtsText body ++ .char '\x7d' :: rest) := by
      simp [Block.text]
    rw [text, Cursor.Starts, View.of_openBrace] at starts
    have seen := (starts.accept .plain).starts
    rwa [Cursor.Starts, (next_stmtsText h rest).silent.view (by simp)] at seen
  rw [braceStatement]
  rcases braceForm_eq h first with form | form
  · rw [form]
    refine read.mono ?_
    rintro s d ⟨⟨x, ss, rfl, stand⟩, starts'⟩
    exact ⟨stands stand, starts'⟩
  · rw [form]
    refine reads_contest (read.mono ?_)
    rintro s d ⟨⟨x, ss, rfl, stand⟩, starts'⟩
    refine ⟨?_, stands stand, starts'⟩
    rw [looksLikeMethod_eq stand, opensWithStar_eq h first]
    rfl

end

end IndexedLoop
