import IndexedLoop.Proofs.RoundTrip.Covers

/-!
# How the text of a statement starts

A statement starts with a keyword, a semicolon, a brace or an expression (`Opening`). None of these goes
on with a block or a function in front of it, so behind a closing brace a semicolon is inserted, or the
next statement is seen (`Next.behindBrace`).
-/

namespace IndexedLoop

open Lexical Parse

/-! ## Words at the start of an expression -/

/-- The words that start an expression and are no names. -/
def operandWords : List String := leadWords ++ ["typeof", "void", "delete"]

/-- A word that starts an expression is a name or one of these words. -/
theorem Lead.word {m : Mark} {s : List Symbol} (h : Lead m s) {w : String}
    (token : (View.of .plain s).token = .word w) : w ∉ reservedWords ∨ w ∈ operandWords := by
  have leads := h.token
  generalize (View.of .plain s).token = t at leads token
  cases leads with
  | name reference _ _ =>
    cases token
    exact .inl reference.2
  | keyword mem _ =>
    cases token
    exact .inr (List.mem_append_left _ mem)
  | unary op => cases op <;> cases token <;> exact .inr (by decide)
  | _ => cases token

theorem Lead.ne_word {m : Mark} {s : List Symbol} (h : Lead m s) {w : String} (reserved : w ∈ reservedWords)
    (other : w ∉ operandWords) : (View.of .plain s).token ≠ .word w := by
  intro token
  rcases h.word token with name | operand
  · exact name reserved
  · exact other operand

theorem Lead.opens {m : Mark} {s : List Symbol} (h : Lead m s) : (View.of .plain s).token.Opens := by
  have lead := h.isLead
  have isIn := h.ne_word (w := "in") (by decide) (by decide)
  have instanceOf := h.ne_word (w := "instanceof") (by decide) (by decide)
  generalize (View.of .plain s).token = token at lead isIn instanceOf
  cases token with
  | word w =>
    refine ⟨by simp, ?_, by simp⟩
    simp_all [Token.continuesOperand, Token.isWordOperator]
  | number => exact ⟨by simp, rfl, by simp⟩
  | string => exact ⟨by simp, rfl, by simp⟩
  | punct p =>
    have : ∀ p ∈ ["(", "[", "\x7b", "/", "/=", "!", "~", "-", "+", "++", "--"],
        (Token.punct p).continuesOperand false = false ∧ p ≠ "=" := by decide
    obtain ⟨continues, equals⟩ := this p (by simpa [Token.isLead] using lead)
    exact ⟨by simp, continues, by simpa using equals⟩
  | _ => cases lead

/-! ## Statements -/

theorem View.of_semicolon (rest : List Symbol) :
    View.of .plain (.char ';' :: rest) = ⟨.punct ";", .char ';' :: rest, rest⟩ :=
  View.of_punct (p := ";") (Calm.of_char (c := ';') (by decide) (by decide) rest) (by decide)
    (punctuator?_solitary (by decide) rest) (by decide)

theorem View.of_openBrace (rest : List Symbol) :
    View.of .plain (.char '\x7b' :: rest) = ⟨.punct "\x7b", .char '\x7b' :: rest, rest⟩ :=
  View.of_bracket (p := "\x7b") (by decide) rest

/-- The words that start a statement. -/
def statementWords : List String :=
  ["var", "let", "const", "function", "return", "for", "while", "if", "break", "continue", "throw"]

/-- How the text of a statement starts. Behind `let` stands a name. -/
inductive Opening : List Symbol → Prop
  | keyword {w : String} {rest : List Symbol} (mem : w ∈ statementWords) (stop : Breaks rest)
    (name : w = "let" → ∃ id t, Identifier.IsBinding id ∧ rest = .char ' ' :: (id.text ++ Tail.text t)) :
    Opening (Symbol.ofString w ++ rest)
  | semicolon (rest : List Symbol) : Opening (.char ';' :: rest)
  | brace (rest : List Symbol) : Opening (.char '\x7b' :: rest)
  | expression {s : List Symbol} (lead : Lead (.close .semicolon) s) : Opening s

theorem canonicalDeclarators_cons {rule : TargetRule} {v : Declarator} {vs : List Declarator} :
    canonicalDeclarators rule (v :: vs) ↔
      v.id.IsBinding ∧ canonicalOption rule v.init ∧ canonicalDeclarators rule vs := by
  obtain ⟨span, id, init⟩ := v
  rfl

theorem statementWords_keywords : ∀ w ∈ statementWords, w ∈ keywords := by decide

namespace Opening

variable {s : List Symbol} (h : Opening s)

include h

theorem calm : Calm s := by
  cases h with
  | keyword mem stop _ =>
    obtain ⟨isName, operator⟩ := keywords_isName (statementWords_keywords _ mem)
    exact Calm.of_name isName operator stop.wordPiece_eq
  | semicolon rest => exact Calm.of_char (by decide) (by decide) rest
  | brace rest => exact Calm.of_char (by decide) (by decide) rest
  | expression lead => exact lead.calm

theorem opens : (View.of .plain s).token.Opens := by
  cases h with
  | @keyword w rest mem stop _ =>
    rw [View.of_keyword (statementWords_keywords w mem) stop]
    have : ∀ w ∈ statementWords, (Token.word w).continuesOperand false = false := by decide
    exact ⟨by simp, this w mem, by simp⟩
  | semicolon rest =>
    rw [View.of_semicolon]
    exact ⟨by simp, rfl, by simp⟩
  | brace rest =>
    rw [View.of_openBrace]
    exact ⟨by simp, rfl, by simp⟩
  | expression lead => exact lead.opens

theorem ne_word {w : String} (reserved : w ∈ reservedWords) (operand : w ∉ operandWords)
    (statement : w ∉ statementWords) : (View.of .plain s).token ≠ .word w := by
  cases h with
  | @keyword w rest mem stop _ =>
    rw [View.of_keyword (statementWords_keywords w mem) stop]
    rintro e
    cases e
    exact statement mem
  | semicolon rest =>
    rw [View.of_semicolon]
    simp
  | brace rest =>
    rw [View.of_openBrace]
    simp
  | expression lead => exact lead.ne_word reserved operand

theorem ne_else : (View.of .plain s).token ≠ .word "else" :=
  h.ne_word (by decide) (by decide) (by decide)

/-- A statement starts with a token that starts an expression too, or with a semicolon. -/
theorem isLead : (View.of .plain s).token.isLead = true ∨ (View.of .plain s).token = .punct ";" := by
  cases h with
  | @keyword w rest mem stop _ =>
    rw [View.of_keyword (statementWords_keywords w mem) stop]
    exact .inl rfl
  | semicolon rest =>
    rw [View.of_semicolon]
    exact .inr rfl
  | brace rest =>
    rw [View.of_openBrace]
    exact .inl rfl
  | expression lead => exact .inl lead.isLead

theorem ne_of_isLead {t : Token} (lead : t.isLead = false) (semicolon : t ≠ .punct ";") :
    (View.of .plain s).token ≠ t := by
  rintro rfl
  rcases h.isLead with isLead | other
  · rw [isLead] at lead
    cases lead
  · exact semicolon other

theorem next : Next s := .text h.calm h.opens

theorem ne_nil : s ≠ [] := by
  obtain ⟨c, rest, e, -⟩ := h.calm.first
  simp [e]

end Opening

namespace Stmt

variable {rule : TargetRule}

theorem lead_expression {e : Expr} (h : e.Canonical rule) (t : Tail) (dot : t.mark ≠ .dot) :
    Lead t.mark (e.textIf e.isFenced ++ t.text) :=
  Expr.lead_textIf fun _ => e.lead h t fun _ => dot

theorem opening : (s : Stmt) → s.Canonical rule → (rest : List Symbol) → Opening (s.text ++ rest)
  | .declaration ⟨_, kind, []⟩, h, _ => absurd rfl h.1
  | .declaration ⟨span, kind, v :: vs⟩, h, rest => by
    let tail : Tail := v.tail ((Tail.closed .semicolon (.char '\n' :: rest)).behind (vs.map Declarator.text))
    have text : (declaration ⟨span, kind, v :: vs⟩).text ++ rest =
        Symbol.ofString kind.token ++ .char ' ' :: (v.id.text ++ tail.text) := by
      rw [← v.text_tail, ← joined_cons, Tail.text_semicolon, text_declaration, Declaration.text]
      simp
    have mem : kind.token ∈ statementWords := by cases kind <;> decide
    rw [text]
    exact .keyword mem (by simp [Breaks, breakChars])
      fun _ => ⟨v.id, tail, (canonicalDeclarators_cons.mp h.2).1, rfl⟩
  | .functionDecl ⟨_, id, params, body⟩, _, rest => by
    rw [text_functionDecl, headText, List.append_assoc, List.append_assoc]
    exact .keyword (by decide) (by simp [Breaks, breakChars]) (by simp)
  | .block b, _, rest => by
    rw [text_block, Block.text, List.cons_append]
    exact .brace _
  | .ret _ argument, _, rest => by
    rw [text_ret, List.append_assoc]
    exact .keyword (by decide) (by simp [Breaks, breakChars]) (by simp)
  | .forLoop ⟨_, init, test, update, body⟩, _, rest => by
    rw [text_forLoop, List.append_assoc]
    exact .keyword (by decide) (by simp [Breaks, breakChars]) (by simp)
  | .whileLoop ⟨_, test, body⟩, _, rest => by
    rw [text_whileLoop, List.append_assoc]
    exact .keyword (by decide) (by simp [Breaks, breakChars]) (by simp)
  | .ifElse ⟨_, test, consequent, none⟩, _, rest => by
    rw [text_ifThen, List.append_assoc]
    exact .keyword (by decide) (by simp [Breaks, breakChars]) (by simp)
  | .ifElse ⟨_, test, consequent, some alternate⟩, h, rest => by
    have some := (alternate.opening h.2.2.2 []).ne_nil
    rw [List.append_nil] at some
    rw [text_ifElse _ _ h.2.2.1 some, List.append_assoc]
    exact .keyword (by decide) (by simp [Breaks, breakChars]) (by simp)
  | .brk _, _, rest => by
    rw [text_brk, List.append_assoc]
    exact .keyword (by decide) (by simp [Breaks, breakChars]) (by simp)
  | .cont _, _, rest => by
    rw [text_cont, List.append_assoc]
    exact .keyword (by decide) (by simp [Breaks, breakChars]) (by simp)
  | .throw _ argument, _, rest => by
    rw [text_throw, List.append_assoc]
    exact .keyword (by decide) (by simp [Breaks, breakChars]) (by simp)
  | .empty _, _, rest => by
    rw [text_empty]
    exact .semicolon _
  | .expression _ e, h, rest => by
    have lead := lead_expression h (.closed .semicolon (.char '\n' :: rest)) (by simp [Tail.closed])
    rw [Tail.text_semicolon] at lead
    rw [text_expression, List.append_assoc]
    exact .expression lead
  | .unknown _, h, _ => h.elim

theorem text_ne_nil {s : Stmt} (h : s.Canonical rule) : s.text ≠ [] := by
  have := (s.opening h []).ne_nil
  rwa [List.append_nil] at this

end Stmt

/-- What may stand behind statements in a block: the statements that follow, and the brace. -/
theorem next_stmtsText {rule : TargetRule} {body : List Stmt} (h : canonicalStmts rule body) (rest : List Symbol) :
    Next (stmtsText body ++ .char '\x7d' :: rest) := by
  cases body with
  | nil => exact .brace rest
  | cons s body =>
    rw [stmtsText_cons, List.append_assoc]
    exact (s.opening h.1 _).next

theorem stmtsText_ne_else {rule : TargetRule} {body : List Stmt} (h : canonicalStmts rule body)
    (rest : List Symbol) : (View.of .plain (stmtsText body ++ .char '\x7d' :: rest)).token ≠ .word "else" := by
  cases body with
  | nil =>
    rw [stmtsText_nil, List.nil_append, View.of_brace rfl]
    simp
  | cons s body =>
    rw [stmtsText_cons, List.append_assoc]
    exact (s.opening h.1 _).ne_else

/-! ## Behind a brace -/

theorem View.of_inserted {slot : Slot} (ends : slot.ends = true) {s : List Symbol}
    (h : Semicolon.insertsAt slot.joins s = true) : View.of slot s = ⟨.inserted, s, s⟩ := by
  simp [View.of, Cursor.lexeme, Cursor.lexemeIn, Lexeme.view, ends, h]

/-- Where a word may follow, a calm text shows its first token. -/
theorem Calm.view_words {s : List Symbol} (h : Calm s) {slot : Slot} (words : slot.words = true) :
    View.of slot s = View.of .plain s := by
  have read : Token.read slot s = Token.read .plain s := by
    unfold Token.read
    rw [words]
    rfl
  rw [h.view, h.view, read]

/-- At a slot in front of a text, a semicolon is inserted or the start of `s` is seen. -/
structure LeadsTo (slot : Slot) (text s : List Symbol) : Prop where
  written : (View.of .plain s).token ≠ .inserted
  plain : View.of .plain text = View.of .plain s
  view : View.of slot text = ⟨.inserted, text, text⟩ ∨ View.of slot text = View.of .plain s

namespace Next

variable {s : List Symbol} (h : Next s)

include h

theorem silent : Silent s := by
  cases h with
  | finish => exact .nil
  | brace rest => exact .of_char (by decide) (by decide) rest
  | otherwise rest =>
    refine Silent.blank ?_ (by simp)
    exact .of_char (c := 'e') (by decide) (by decide) _
  | text calm _ => exact calm.silent

theorem opens : (View.of .plain s).token.Opens := by
  cases h with
  | finish => exact ⟨by decide, by decide, by decide⟩
  | brace rest =>
    rw [View.of_brace rfl]
    exact ⟨by simp, rfl, by simp⟩
  | otherwise rest =>
    have calm : Calm (Symbol.ofString "else" ++ .char ' ' :: rest) := Calm.of_char (c := 'e') (by decide) (by decide) _
    rw [calm.view_space, View.of_keyword (by decide) (by simp [Breaks, breakChars])]
    exact ⟨by simp, rfl, by simp⟩
  | text _ opens => exact opens

variable {slot : Slot} (ends : slot.ends = true) (words : slot.words = true)

include ends words

theorem behindBrace : LeadsTo slot s s := by
  refine ⟨h.opens.written, rfl, ?_⟩
  cases h with
  | finish => exact .inl (View.of_inserted ends rfl)
  | brace rest => exact .inl (View.of_inserted ends rfl)
  | otherwise rest =>
    have calm : Calm (Symbol.ofString "else" ++ .char ' ' :: rest) := Calm.of_char (c := 'e') (by decide) (by decide) _
    exact .inr ((calm.view_space slot).trans ((calm.view_words words).trans (calm.view_space .plain).symm))
  | text calm _ => exact .inr (calm.view_words words)

theorem behindLine : LeadsTo slot (.char '\n' :: s) s := by
  refine ⟨h.opens.written, h.silent.view (by simp), ?_⟩
  cases inserts : Semicolon.insertsAt slot.joins (.char '\n' :: s) with
  | true => exact .inl (View.of_inserted ends inserts)
  | false =>
    cases h with
    | finish => cases inserts
    | brace rest => cases inserts
    | otherwise rest => cases inserts
    | text calm _ => exact .inr ((calm.view_newline fun _ => inserts).trans (calm.view_words words))

end Next

section

variable {slot : Slot} {text s : List Symbol} (h : LeadsTo slot text s) {c : Cursor} (at_ : c.At slot text)

include h at_

/-- The inserted semicolon is read, if there is one, and then the start of `s` is seen. -/
theorem reads_tryInserted_plain {post : Bool → Cursor → Prop} (next : ∀ b d, d.Starts s → post b d) :
    Reads (tryInserted .plain) c post := by
  have sees := at_.sees
  rw [reads_tryInserted, sees.token]
  rcases h.view with view | view
  · rw [view] at sees
    rw [view, if_pos rfl]
    refine next _ _ ?_
    rw [Cursor.Starts, ← h.plain]
    exact (sees.accept .plain).starts
  · rw [view] at sees
    rw [view, if_neg h.written]
    exact next _ _ sees

/-- Where nothing changes behind the inserted semicolon, the cursor stays where it is. -/
theorem reads_tryInserted_same {post : Bool → Cursor → Prop} (next : ∀ b d, d.At slot text → post b d) :
    Reads (tryInserted slot) c post := by
  have sees := at_.sees
  rw [reads_tryInserted, sees.token]
  rcases h.view with view | view
  · rw [view] at sees
    rw [view, if_pos rfl]
    exact next _ _ (sees.accept slot)
  · rw [view, if_neg h.written]
    exact next _ _ at_

end

end IndexedLoop
