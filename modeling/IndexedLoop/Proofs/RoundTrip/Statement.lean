import IndexedLoop.Proofs.RoundTrip.Braces
import IndexedLoop.Proofs.RoundTrip.Header

/-!
# Statements

The text of every canonical statement is read (`reads_statement`), by the word or the sign that it starts
with. An expression that would start like a function declaration or a block stands in parentheses.
-/

namespace IndexedLoop

open Lexical Parse Grammar

/-! ## Fences -/

theorem prefix_of_append {w a rest : List Symbol} {x : Symbol} (h : w <+: a ++ x :: rest) (other : x ∉ w) :
    w <+: a := by
  induction a generalizing w with
  | nil =>
    cases w with
    | nil => exact List.nil_prefix
    | cons y w =>
      rw [List.nil_append, List.cons_prefix_cons] at h
      exact absurd h.1 fun e => other (by simp [e])
  | cons b a ih =>
    cases w with
    | nil => exact List.nil_prefix
    | cons y w =>
      rw [List.cons_append, List.cons_prefix_cons] at h
      rw [List.cons_prefix_cons]
      exact ⟨h.1, ih h.2 fun mem => other (by simp [mem])⟩

namespace Lead

variable {m : Mark} {s : List Symbol} (h : Lead m s)

include h

theorem prefix_of_brace (token : (View.of .plain s).token = .punct "\x7b") : Symbol.ofString "\x7b" <+: s := by
  have leads := h.token
  generalize (View.of .plain s).token = t at leads token
  cases leads with
  | slash mem =>
    cases token
    exact absurd mem (by decide)
  | bracket _ starts =>
    cases token
    exact starts
  | unary op => exact absurd token (by cases op <;> decide)
  | update op => exact absurd (Token.punct.inj token) (by cases op <;> decide)
  | _ => cases token

theorem prefix_of_function (token : (View.of .plain s).token = .word "function") :
    Symbol.ofString "function " <+: s := by
  have leads := h.token
  generalize (View.of .plain s).token = t at leads token
  cases leads with
  | name reference _ _ => exact absurd (Token.word.inj token ▸ reference.2) (by decide)
  | keyword _ space =>
    cases token
    exact space rfl
  | unary op => exact absurd token (by cases op <;> decide)
  | _ => cases token

end Lead

namespace Expr

theorem isFenced_of_start {e : Expr} {w : String} (mem : w = "function " ∨ w = "\x7b") {rest : List Symbol}
    (h : Symbol.ofString w <+: e.text ++ .char ';' :: rest) : e.isFenced = true := by
  have other : Symbol.char ';' ∉ Symbol.ofString w := by
    rcases mem with rfl | rfl <;> decide
  have inside := prefix_of_append h other
  have chars : w.toList <+: e.render.text.toList := by
    have injective : Function.Injective Symbol.char := fun _ _ e => Symbol.char.inj e
    exact (List.prefix_map_iff_of_injective injective).mp inside
  rw [isFenced_iff]
  rcases mem with rfl | rfl
  · exact .inl chars
  · exact .inr chars

theorem isCompound_of_isFenced {rule : TargetRule} {e : Expr} (h : e.Canonical rule) (fenced : e.isFenced = true) :
    e.isCompound = true := by
  cases e with
  | identifier id =>
    rw [isFenced_iff] at fenced
    have text : (identifier id).render.text = id.name := rfl
    rw [text] at fenced
    have name : IsName id.name.toList := h.1
    rcases fenced with word | brace
    · have blank := name.text.not_blank ' ' (word.subset (by decide))
      exact absurd blank (by decide)
    · obtain ⟨c, more, first, word, -⟩ := name.first
      rw [first] at brace
      obtain ⟨rfl, -⟩ := List.cons_prefix_cons.mp brace
      exact absurd word (by decide)
  | this span =>
    rw [isFenced_iff] at fenced
    have text : (this span).render.text = "this" := rfl
    rw [text] at fenced
    exact absurd fenced (by decide)
  | _ => rfl

/-- The text of an expression statement starts with no brace, and with no keyword of a function. -/
theorem fenced_token {rule : TargetRule} {e : Expr} (h : e.Canonical rule) (rest : List Symbol) :
    (View.of .plain (e.textIf e.isFenced ++ .char ';' :: rest)).token ∉ [.punct "\x7b", .word "function"] := by
  cases fenced : e.isFenced with
  | true =>
    have text : e.textIf true ++ .char ';' :: rest = Symbol.ofString "(" ++ (e.text ++ .char ')' :: .char ';' :: rest) := by
      simp [textIf, inParens, Symbol.ofString]
    rw [text, View.of_bracket (by decide)]
    simp
  | false =>
    have lead := e.lead h (.closed .semicolon rest) fun _ => by simp [Tail.closed]
    rw [Tail.text_semicolon] at lead
    show (View.of .plain (e.text ++ .char ';' :: rest)).token ∉ _
    intro mem
    simp only [List.mem_cons, List.not_mem_nil, or_false] at mem
    rcases mem with token | token
    · rw [isFenced_of_start (.inr rfl) (lead.prefix_of_brace token)] at fenced
      cases fenced
    · rw [isFenced_of_start (.inl rfl) (lead.prefix_of_function token)] at fenced
      cases fenced

end Expr

/-! ## Expressions -/

section

variable {g : Level} {n : Nat} (covers : g.Covers definedTarget n) {rest : List Symbol} (next : Next rest) {c : Cursor}

include next in
/-- Behind the expression its semicolon is read. -/
theorem reads_expressionStatementFrom {span : Span} {e : Expr} {first : Surface.Expr}
    (h : Reads (sequenceFrom g .statement first) c fun s d =>
      s.Stands e ∧ d.Meets (.closed .semicolon (.char '\n' :: rest))) :
    Reads (expressionStatementFrom g first) c fun s d => s.Stands (.expression span e) ∧ d.Starts rest := by
  simp only [expressionStatementFrom, reads_bind, reads_look, reads_extentFrom, reads_pure]
  refine h.mono fun s d read => ?_
  have closed : d.lexeme.isPunct ";" = true := read.2.isPunct ";"
  rw [closed]
  exact reads_semicolon read.2 fun d' at_ => ⟨.expression read.1, next.starts at_⟩

include covers next

/-- An expression is read as a statement. -/
theorem reads_expressionStatement {span : Span} {e : Expr} (h : e.Canonical definedTarget)
    (short : (e.textIf e.isFenced).length < n)
    (starts : c.Starts (e.textIf e.isFenced ++ (Tail.closed .semicolon (.char '\n' :: rest)).text)) :
    Reads (expressionStatement g) c fun s d => s.Stands (.expression span e) ∧ d.Starts rest := by
  let t : Tail := .closed .semicolon (.char '\n' :: rest)
  have suits : t.mark.Suits .statement := .of_ne _ (by simp [t, Tail.closed]) (by simp [t, Tail.closed])
  simp only [expressionStatement, reads_bind]
  cases fenced : e.isFenced with
  | true =>
    rw [fenced] at starts short
    refine (reads_expr covers h (.parens (Expr.isCompound_of_isFenced h fenced)) (Nat.le_of_lt short) rfl suits rfl
      starts).mono fun s d read => reads_expressionStatementFrom next ?_
    have comma : d.lexeme.isPunct "," = false := read.2.isPunct ","
    simp only [sequenceFrom, reads_bind, reads_rounds, moreIn, reads_tryPunct, comma, Bool.false_eq_true, ↓reduceIte,
      reads_pure]
    exact read
  | false =>
    rw [fenced] at starts short
    have starts : c.Starts (e.text ++ t.text) := starts
    have short : e.text.length < n := short
    have parts (p : Expr) (hp : p ∈ e.parts.1 :: e.parts.2) : p.listed.length < n :=
      Nat.lt_of_le_of_lt (e.length_parts h hp) short
    rw [e.text_parts h] at starts
    refine (reads_expr covers (e.parts_canonical h).1 (.listed _) (Nat.le_of_lt (parts _ (by simp)))
      (Tail.isClose_behind rfl _) (Tail.suits_behind suits _) rfl starts).mono fun s d read => ?_
    exact reads_expressionStatementFrom next (reads_sequenceFrom covers rfl (by simp [t, Tail.closed]) suits h
      (fun p hp => parts p (by simp [hp])) read.1 read.2)

end

/-! ## Keywords -/

/-- The words that start a statement of their own kind, wherever a statement starts. -/
def controlWords : List String :=
  ["if", "for", "while", "do", "switch", "try", "with", "return", "throw", "break", "continue", "debugger"]

section

variable {g : Level} {n : Nat} {s : List Symbol} {c : Cursor}

theorem reads_statement_word {w : String} (token : c.lexeme.token = .word w) (control : w ∉ controlWords)
    {post : Surface.Stmt → Cursor → Prop} (h : Reads (wordStatement g false c.lexeme w) c post) :
    Reads (statement g false) c post := by
  have none : keywordStatement? g false c.lexeme = none := by
    unfold keywordStatement?
    rw [token]
    split
    case h_13 => rfl
    all_goals
      rename_i e
      cases e
      exact absurd control (by decide)
  simpa only [statement, reads_bind, reads_look, token, none, Option.getD_none] using h

/-- A statement that starts with another word is a definition, a declaration or an expression. -/
theorem reads_wordStatement {w : String} (token : c.lexeme.token = .word w) (label : isLabel c.lexeme w = false)
    (other : w ∉ ["import", "export"]) {post : Surface.Stmt → Cursor → Prop}
    (defined : startsDefinition c.lexeme .wide = true →
      Reads (definitionStatement g false c.lexeme.start.place c.lexeme) c post)
    (declared : startsDefinition c.lexeme .wide = false → ∀ kind, declarationKind? c.lexeme .wide = some kind →
      Reads (declarationTail g c.lexeme.start.place kind) (c.lexeme.stop.facing .plain) fun d => post (.declaration d))
    (expression : startsDefinition c.lexeme .wide = false → declarationKind? c.lexeme .wide = none →
      Reads (expressionStatement g) c post) :
    Reads (wordStatement g false c.lexeme w) c post := by
  have isImport : startsImport c.lexeme = false := by
    have : c.lexeme.isWord "import" = false := by
      rw [Lexeme.isWord, token, beq_eq_false_iff_ne]
      rintro e
      cases e
      exact other (by decide)
    simp [startsImport, this]
  have isExport : startsExport c.lexeme = false := by
    have : c.lexeme.isWord "export" = false := by
      rw [Lexeme.isWord, token, beq_eq_false_iff_ne]
      rintro e
      cases e
      exact other (by decide)
    simp [startsExport, this]
  simp only [wordStatement, label, isImport, isExport, Bool.false_eq_true, ↓reduceIte]
  cases definition : startsDefinition c.lexeme .wide with
  | true => exact defined definition
  | false =>
    rw [if_neg (by decide)]
    cases kind : declarationKind? c.lexeme .wide with
    | some kind' =>
      simp only [reads_bind, reads_accept, reads_pure]
      exact declared definition kind' kind
    | none => exact expression definition kind

theorem startsDefinition_eq {w : String} (token : c.lexeme.token = .word w)
    (other : w ∉ ["function", "async", "class"]) {slot : Slot} : startsDefinition c.lexeme slot = false := by
  have ne (v : String) (mem : v ∈ ["function", "async", "class"]) : c.lexeme.isWord v = false := by
    rw [Lexeme.isWord, token, beq_eq_false_iff_ne]
    rintro e
    cases e
    exact other mem
  simp [startsDefinition, namesFunction, namesAsyncFunction, namesClass, ne "function" (by decide),
    ne "async" (by decide), ne "class" (by decide)]

/-- What is seen where a keyword stands. -/
theorem Cursor.Starts.keyword {w : String} (mem : w ∈ keywords) {rest : List Symbol} (stop : Breaks rest)
    (starts : c.Starts (Symbol.ofString w ++ rest)) :
    c.lexeme.token = .word w ∧ ∀ slot, (c.lexeme.stop.facing slot).At slot rest := by
  rw [Cursor.Starts, View.of_keyword mem stop] at starts
  exact ⟨starts.token, fun slot => starts.accept slot⟩

/-- Behind a blank the start of a calm text is seen. -/
theorem Cursor.At.starts_of_space {slot : Slot} (words : slot.words = true) (calm : Calm s)
    (at_ : c.At slot (.char ' ' :: s)) : c.Starts s := by
  have sees := at_.sees
  rwa [calm.view_space, calm.view_words words] at sees

end

/-! ## Statements -/

section

variable {g : Level} {n : Nat} (covers : g.Covers definedTarget n) {rest : List Symbol} (next : Next rest) {c : Cursor}

include covers next

theorem reads_statement_declaration {d : Declaration} (h : d.Canonical definedTarget)
    (short : (Stmt.declaration d).text.length ≤ n) (starts : c.Starts ((Stmt.declaration d).text ++ rest)) :
    Reads (statement g false) c fun s d' => s.Stands (.declaration d) ∧ d'.Starts rest := by
  have opening := (Stmt.declaration d).opening h rest
  have text : (Stmt.declaration d).text ++ rest = d.text ++ .char ';' :: .char '\n' :: rest := by
    simp [Stmt.text_declaration]
  have label {w : String} (token : c.lexeme.token = .word w) := opening.not_label starts token
  rw [text] at starts
  obtain ⟨declares, inside⟩ := starts.declares h
  have token := declares.keyword
  rw [Stmt.text_declaration, List.length_append] at short
  refine reads_statement_word token (by cases d.kind <;> decide) ?_
  refine reads_wordStatement token (label token) (by cases d.kind <;> decide) ?_ ?_ ?_
  · intro defined
    rw [startsDefinition_eq token (by cases d.kind <;> decide)] at defined
    cases defined
  · intro _ kind found
    rw [declares.declarationKind? rfl] at found
    cases found
    refine (reads_declarationTail covers h (by omega) inside).mono fun s c' read => ?_
    exact ⟨.declaration read.1, next.starts read.2⟩
  · intro _ none
    rw [declares.declarationKind? rfl] at none
    cases none

theorem reads_statement_expression {span : Span} {e : Expr} (h : e.Canonical definedTarget)
    (short : (Stmt.expression span e).text.length ≤ n)
    (starts : c.Starts ((Stmt.expression span e).text ++ rest)) :
    Reads (statement g false) c fun s d => s.Stands (.expression span e) ∧ d.Starts rest := by
  have opening := (Stmt.expression span e).opening h rest
  have text : (Stmt.expression span e).text ++ rest =
      e.textIf e.isFenced ++ (Tail.closed .semicolon (.char '\n' :: rest)).text := by
    simp [Stmt.text_expression, Tail.text_semicolon]
  have label {w : String} (token : c.lexeme.token = .word w) := opening.not_label starts token
  have lead := Stmt.lead_expression h (.closed .semicolon (.char '\n' :: rest)) (by simp [Tail.closed])
  have fence := Expr.fenced_token h (.char '\n' :: rest)
  rw [Stmt.text_expression, List.length_append] at short
  rw [text] at starts
  rw [← Tail.text_semicolon] at fence
  have token := Cursor.Sees.token starts
  have read : Reads (expressionStatement g) c fun s d => s.Stands (.expression span e) ∧ d.Starts rest :=
    reads_expressionStatement covers next h (by simp at short; omega) starts
  have sign {p : String} (other : (Token.punct p).isLead = false) : c.lexeme.token ≠ .punct p := by
    rw [token]
    exact Token.ne_of_isLead lead.isLead other
  by_cases isWord : ∃ w, c.lexeme.token = .word w
  · obtain ⟨w, first⟩ := isWord
    have ne {v : String} (reserved : v ∈ reservedWords) (operand : v ∉ operandWords) : w ≠ v := by
      rintro rfl
      exact lead.ne_word reserved operand (token ▸ first)
    have control : w ∉ controlWords := by
      have : ∀ v ∈ controlWords, v ∈ reservedWords ∧ v ∉ operandWords := by decide
      exact fun mem => ne (this w mem).1 (this w mem).2 rfl
    have modules : w ∉ ["import", "export"] := by
      simp [ne (v := "import") (by decide) (by decide), ne (v := "export") (by decide) (by decide)]
    have definitions : w ∉ ["function", "async", "class"] := by
      have isFunction : w ≠ "function" := by
        rintro rfl
        exact fence (by simp [← token, first])
      simp [isFunction, ne (v := "async") (by decide) (by decide), ne (v := "class") (by decide) (by decide)]
    have kinds : declarationKind? c.lexeme .wide = none := by
      refine declarationKind?_eq_none fun kind e => ?_
      rw [first, Token.word.injEq] at e
      cases kind with
      | var => exact ne (by decide) (by decide) e
      | lexical => exact ne (by decide) (by decide) e
      | constant => exact ne (by decide) (by decide) e
    refine reads_statement_word first control (reads_wordStatement first (label first) modules ?_ ?_ fun _ _ => read)
    · intro defined
      rw [startsDefinition_eq first definitions] at defined
      cases defined
    · intro _ kind found
      rw [kinds] at found
      cases found
  · simp only [statement, reads_bind, reads_look]
    split
    · rename_i brace
      exact absurd (by simp [← token, brace]) fence
    · rename_i semicolon
      exact absurd semicolon (sign (by decide))
    · rename_i decorator
      exact absurd decorator (sign (by decide))
    · rename_i w first
      exact absurd ⟨w, first⟩ isWord
    · exact read

theorem reads_statement_functionDecl {span : Span} {id : Identifier} {params : List Expr} {body : Block}
    (h : (Stmt.functionDecl ⟨span, id, params, body⟩).Canonical definedTarget)
    (short : (Stmt.functionDecl ⟨span, id, params, body⟩).text.length ≤ n)
    (starts : c.Starts ((Stmt.functionDecl ⟨span, id, params, body⟩).text ++ rest)) :
    Reads (statement g false) c fun s d =>
      s.Stands (.functionDecl ⟨span, id, params, body⟩) ∧ d.Starts rest := by
  have opening := (Stmt.functionDecl ⟨span, id, params, body⟩).opening h rest
  have label {w : String} (token : c.lexeme.token = .word w) := opening.not_label starts token
  let tail : List Symbol := inParens (joined (params.map Expr.listed)) ++ (body.text ++ .char '\n' :: rest)
  have stop : Breaks tail := by simp [tail, inParens, Breaks, breakChars]
  have calm : Calm (id.text ++ tail) := Calm.of_name h.1.1.1 h.1.1.not_operator stop.wordPiece_eq
  have text : (Stmt.functionDecl ⟨span, id, params, body⟩).text ++ rest =
      Symbol.ofString "function" ++ .char ' ' :: (id.text ++ tail) := by
    simp [tail, Stmt.text_functionDecl, headText]
  rw [text] at starts
  obtain ⟨token, behind⟩ := starts.keyword (by decide) (by simp [Breaks, breakChars])
  have name := (behind .plain).starts.of_space calm
  rw [Cursor.Starts, View.of_identifier h.1.1.1 stop] at name
  have star : (c.lexeme.stop.facing .plain).lexeme.isPunct "*" = false := name.isPunct "*"
  have names : namesFunction c.lexeme = true := by
    have isFunction : c.lexeme.isWord "function" = true := by rw [Lexeme.isWord, token]; rfl
    have word : (c.lexeme.next .plain).token = .word id.name := name.token
    have star : (c.lexeme.next .plain).isPunct "*" = false := star
    simp only [namesFunction, isFunction, star, Bool.false_eq_true, ↓reduceIte, word, Bool.and_self]
  have shorter : (inParens (joined (params.map Expr.listed)) ++ body.text).length ≤ n := by
    simp only [Stmt.text_functionDecl, headText, List.length_append, List.length_cons] at short ⊢
    omega
  have leads : LeadsTo .wide (.char '\n' :: rest) rest := next.behindLine rfl rfl
  refine reads_statement_word token (by decide) (reads_wordStatement token (label token) (by decide) ?_ ?_ ?_)
  · intro _
    simp only [definitionStatement, definition, names, ↓reduceIte, reads_bind, reads_accept, functionDefinition,
      reads_tryPunct, star, Bool.false_eq_true, Parse.word, reads_look, name.token, reads_pure]
    refine reads_functionTail covers h.2.1 h.2.2 shorter (name.accept .plain).starts fun d at_ => ?_
    refine reads_tryInserted_same leads at_ fun _ d' at' fn stands => ?_
    have continues : d'.lexeme.token.continuesOperand false = false := by
      rw [at'.sees.token]
      rcases leads.view with view | view
      · rw [view]
        rfl
      · rw [view]
        exact next.opens.continues
    simp only [goesOn, reads_bind, reads_look, reads_pure, continues, Bool.false_eq_true, ↓reduceIte,
      Definition.declare, reads_extentFrom]
    refine reads_tryInserted_plain leads at' fun _ d'' starts' => ?_
    exact ⟨.function stands _ id, starts'⟩
  · intro none
    simp [startsDefinition, names] at none
  · intro none
    simp [startsDefinition, names] at none

theorem reads_statement_ret {span : Span} {argument : Option Expr} (h : canonicalOption definedTarget argument)
    (short : (Stmt.ret span argument).text.length ≤ n) (starts : c.Starts ((Stmt.ret span argument).text ++ rest)) :
    Reads (statement g false) c fun s d => s.Stands (.ret span argument) ∧ d.Starts rest := by
  let t : Tail := .closed .semicolon (.char '\n' :: rest)
  have text : (Stmt.ret span argument).text ++ rest =
      Symbol.ofString "return" ++ .char ' ' :: (optionText argument ++ t.text) := by
    simp [t, Stmt.text_ret, Tail.text_semicolon]
  rw [text] at starts
  obtain ⟨token, behind⟩ := starts.keyword (by decide) (by simp [Breaks, breakChars])
  have at_ := behind .ending
  simp only [statement, reads_bind, reads_look, token, keywordStatement?, Option.getD_some, reads_accept,
    returnStatement]
  cases argument with
  | none =>
    have calm : Calm t.text := by
      rw [Tail.text_semicolon]
      exact Calm.of_char (by decide) (by decide) _
    have starts' : (c.lexeme.stop.facing .ending).Starts t.text := at_.starts_of_space rfl calm
    have sees := starts'.tail (by simp [t, Tail.closed])
    have close : (c.lexeme.stop.facing .ending).lexeme.isPunct ";" = true := sees.isPunct ";"
    simp only [close, Bool.true_or, ↓reduceIte, reads_bind, reads_accept, reads_extentFrom, reads_pure]
    exact ⟨.ret trivial, next.starts (sees.accept .plain)⟩
  | some e =>
    have lead := e.lead h t fun _ => by simp [t, Tail.closed]
    have starts' : (c.lexeme.stop.facing .ending).Starts (e.text ++ t.text) := at_.starts_of_space rfl lead.calm
    have close : (c.lexeme.stop.facing .ending).lexeme.isPunct ";" = false := by
      rw [Cursor.Sees.isPunct starts', beq_eq_false_iff_ne]
      exact Token.ne_of_isLead lead.isLead (by decide)
    have inserted : ((c.lexeme.stop.facing .ending).lexeme.token == .inserted) = false := by
      rw [Cursor.Sees.token starts', beq_eq_false_iff_ne]
      exact lead.opens.written
    have length : e.text.length < n := by
      simp only [Stmt.text_ret, optionText, List.length_append, List.length_cons] at short
      omega
    simp only [close, inserted, Bool.or_self, Bool.false_eq_true, ↓reduceIte, reads_bind, reads_extentFrom, reads_pure]
    refine (reads_expressions covers (t := t) rfl (by simp [t, Tail.closed])
      (.of_ne _ (by simp [t, Tail.closed]) (by simp [t, Tail.closed])) rfl h length starts').mono fun s d read => ?_
    exact reads_semicolon read.2 fun d' behind => ⟨.ret read.1, next.starts behind⟩

theorem reads_statement_throw {span : Span} {argument : Expr} (h : argument.Canonical definedTarget)
    (short : (Stmt.throw span argument).text.length ≤ n)
    (starts : c.Starts ((Stmt.throw span argument).text ++ rest)) :
    Reads (statement g false) c fun s d => s.Stands (.throw span argument) ∧ d.Starts rest := by
  let t : Tail := .closed .semicolon (.char '\n' :: rest)
  have text : (Stmt.throw span argument).text ++ rest =
      Symbol.ofString "throw" ++ .char ' ' :: (argument.text ++ t.text) := by
    simp [t, Stmt.text_throw, Tail.text_semicolon]
  rw [text] at starts
  obtain ⟨token, behind⟩ := starts.keyword (by decide) (by simp [Breaks, breakChars])
  have lead := argument.lead h t fun _ => by simp [t, Tail.closed]
  have length : argument.text.length < n := by
    simp only [Stmt.text_throw, List.length_append, List.length_cons] at short
    omega
  simp only [statement, reads_bind, reads_look, token, keywordStatement?, Option.getD_some, reads_accept,
    throwStatement, reads_extentFrom, reads_pure]
  refine (reads_expressions covers (t := t) rfl (by simp [t, Tail.closed])
    (.of_ne _ (by simp [t, Tail.closed]) (by simp [t, Tail.closed])) rfl h length
    ((behind .plain).starts.of_space lead.calm)).mono fun s d read => ?_
  exact reads_semicolon read.2 fun d' behind => ⟨.throw read.1, next.starts behind⟩

omit covers in
/-- A jump without a label is read. -/
theorem reads_jumpTail (at_ : c.At .ending (.char ';' :: .char '\n' :: rest)) :
    Reads jumpTail c fun labelled d => labelled = false ∧ d.Starts rest := by
  rw [← Tail.text_semicolon] at at_
  have meets := at_.meets (by simp [Tail.closed]) (by simp [Tail.closed])
  have token : c.lexeme.token = .punct ";" := meets.token
  simp only [jumpTail, tryAnyWord, reads_bind, reads_look, token, reads_pure]
  exact reads_semicolon meets fun d behind => ⟨rfl, next.starts behind⟩

theorem reads_statement_whileLoop {span : Span} {test : Expr} {body : Stmt}
    (h : (Stmt.whileLoop ⟨span, test, body⟩).Canonical definedTarget)
    (short : (Stmt.whileLoop ⟨span, test, body⟩).text.length ≤ n)
    (dangling : body.endsInOpenIf = true → (View.of .plain rest).token ≠ .word "else")
    (starts : c.Starts ((Stmt.whileLoop ⟨span, test, body⟩).text ++ rest)) :
    Reads (statement g false) c fun s d => s.Stands (.whileLoop ⟨span, test, body⟩) ∧ d.Starts rest := by
  have text : (Stmt.whileLoop ⟨span, test, body⟩).text ++ rest =
      Symbol.ofString "while" ++ .char ' ' :: .char '(' :: (test.text ++ .char ')' :: (body.text ++ rest)) := by
    simp [Stmt.text_whileLoop]
  rw [text] at starts
  obtain ⟨token, behind⟩ := starts.keyword (by decide) (by simp [Breaks, breakChars])
  simp only [Stmt.text_whileLoop, List.length_append, List.length_cons] at short
  simp only [statement, reads_bind, reads_look, token, keywordStatement?, Option.getD_some, reads_accept,
    whileStatement, reads_extentFrom, reads_pure]
  refine (reads_condition covers h.1 (by omega) (behind .plain)).mono fun s d read => ?_
  refine (covers.stmt h.2 (by omega) next dangling read.2.starts).mono fun s' d' inner => ?_
  exact ⟨.whileLoop read.1 inner.1, inner.2⟩

theorem reads_statement_forLoop {span : Span} {init : Option ForInit} {test update : Option Expr} {body : Stmt}
    (h : (Stmt.forLoop ⟨span, init, test, update, body⟩).Canonical definedTarget)
    (short : (Stmt.forLoop ⟨span, init, test, update, body⟩).text.length ≤ n)
    (dangling : body.endsInOpenIf = true → (View.of .plain rest).token ≠ .word "else")
    (starts : c.Starts ((Stmt.forLoop ⟨span, init, test, update, body⟩).text ++ rest)) :
    Reads (statement g false) c fun s d =>
      s.Stands (.forLoop ⟨span, init, test, update, body⟩) ∧ d.Starts rest := by
  let inner : List Symbol := initText init ++ .char ';' :: clausesText test update (body.text ++ rest)
  have text : (Stmt.forLoop ⟨span, init, test, update, body⟩).text ++ rest =
      Symbol.ofString "for" ++ .char ' ' :: (Tail.called inner).text := by
    simp [inner, Stmt.text_forLoop, Tail.text_called, clausesText]
  rw [text] at starts
  obtain ⟨token, behind⟩ := starts.keyword (by decide) (by simp [Breaks, breakChars])
  have calm : Calm (Tail.called inner).text := by
    rw [Tail.text_called]
    exact Calm.of_char (by decide) (by decide) _
  have sees := ((behind .plain).starts.of_space calm).tail (by simp [Tail.called])
  have await : (c.lexeme.stop.facing .plain).lexeme.isWord "await" = false := sees.isWord "await"
  simp only [Stmt.text_forLoop, List.length_append, List.length_cons] at short
  simp only [statement, reads_bind, reads_look, token, keywordStatement?, Option.getD_some, reads_accept,
    forStatement, reads_tryWord, await, Bool.false_eq_true, ↓reduceIte, reads_expect]
  refine ⟨sees.isPunct "(", ?_⟩
  refine (reads_header covers h.2.1 h.2.2.1 (by omega) (by omega) h.1 (by omega) (sees.accept .plain)).mono ?_
  rintro _ d ⟨⟨i, t, u, rfl, hi, ht, hu⟩, at_⟩
  refine (covers.stmt h.2.2.2 (by omega) next dangling at_.starts).mono fun s d' read => ?_
  simp only [reads_extentFrom, reads_pure]
  exact ⟨.forLoop hi ht hu read.1, read.2⟩

theorem reads_statement_ifElse {span : Span} {test : Expr} {consequent : Stmt} {alternate : Option Stmt}
    (h : (Stmt.ifElse ⟨span, test, consequent, alternate⟩).Canonical definedTarget)
    (short : (Stmt.ifElse ⟨span, test, consequent, alternate⟩).text.length ≤ n)
    (dangling : (Stmt.ifElse ⟨span, test, consequent, alternate⟩).endsInOpenIf = true →
      (View.of .plain rest).token ≠ .word "else")
    (starts : c.Starts ((Stmt.ifElse ⟨span, test, consequent, alternate⟩).text ++ rest)) :
    Reads (statement g false) c fun s d =>
      s.Stands (.ifElse ⟨span, test, consequent, alternate⟩) ∧ d.Starts rest := by
  cases alternate with
  | none =>
    have text : (Stmt.ifElse ⟨span, test, consequent, none⟩).text ++ rest =
        Symbol.ofString "if" ++ .char ' ' :: .char '(' :: (test.text ++ .char ')' :: (consequent.text ++ rest)) := by
      simp [Stmt.text_ifThen]
    have otherwise := dangling rfl
    rw [text] at starts
    obtain ⟨token, behind⟩ := starts.keyword (by decide) (by simp [Breaks, breakChars])
    simp only [Stmt.text_ifThen, List.length_append, List.length_cons] at short
    simp only [statement, reads_bind, reads_look, token, keywordStatement?, Option.getD_some, reads_accept,
      ifStatement, reads_tryWord]
    refine (reads_condition covers h.1 (by omega) (behind .plain)).mono fun s d read => ?_
    refine (covers.stmt h.2 (by omega) next (fun _ => otherwise) read.2.starts).mono fun s' d' inner => ?_
    have other : d'.lexeme.isWord "else" = false := by
      rw [Cursor.Sees.isWord inner.2, beq_eq_false_iff_ne]
      exact otherwise
    simp only [other, Bool.false_eq_true, ↓reduceIte, reads_bind, reads_pure, reads_extentFrom]
    exact ⟨.ifThen read.1 inner.1, inner.2⟩
  | some alternate =>
    obtain ⟨ht, hc, closed, ha⟩ := h
    have some := alternate.text_ne_nil ha
    let branch : List Symbol := .char ' ' :: (Symbol.ofString "else" ++ .char ' ' :: (alternate.text ++ rest))
    have text : (Stmt.ifElse ⟨span, test, consequent, alternate⟩).text ++ rest =
        Symbol.ofString "if" ++ .char ' ' :: .char '(' :: (test.text ++ .char ')' :: (consequent.text ++ branch)) := by
      simp [branch, Stmt.text_ifElse _ _ closed some]
    rw [text] at starts
    obtain ⟨token, behind⟩ := starts.keyword (by decide) (by simp [Breaks, breakChars])
    simp only [Stmt.text_ifElse _ _ closed some, List.length_append, List.length_cons] at short
    simp only [statement, reads_bind, reads_look, token, keywordStatement?, Option.getD_some, reads_accept,
      ifStatement, reads_tryWord]
    refine (reads_condition covers ht (by omega) (behind .plain)).mono fun s d read => ?_
    refine (covers.stmt hc (by omega) (.otherwise _) (fun open_ => ?_) read.2.starts).mono fun s' d' inner => ?_
    · rw [closed] at open_
      cases open_
    have calm : Calm (Symbol.ofString "else" ++ .char ' ' :: (alternate.text ++ rest)) :=
      Calm.of_char (c := 'e') (by decide) (by decide) _
    obtain ⟨word, behind'⟩ := (inner.2.of_space calm).keyword (by decide) (by simp [Breaks, breakChars])
    have other : d'.lexeme.isWord "else" = true := by
      rw [Lexeme.isWord, word]
      rfl
    have opening := alternate.opening ha rest
    simp only [other, ↓reduceIte, reads_bind, reads_pure, reads_extentFrom]
    refine (covers.stmt ha (by omega) next dangling
      ((behind' .plain).starts.of_space opening.calm)).mono fun s'' d'' last => ?_
    exact ⟨.ifElse read.1 inner.1 last.1, last.2⟩

/-- The text of a statement is read. -/
theorem reads_statement {s : Stmt} (h : s.Canonical definedTarget) (short : s.text.length ≤ n)
    (dangling : s.endsInOpenIf = true → (View.of .plain rest).token ≠ .word "else")
    (starts : c.Starts (s.text ++ rest)) :
    Reads (statement g false) c fun s' d => s'.Stands s ∧ d.Starts rest := by
  cases s with
  | declaration d => exact reads_statement_declaration covers next h short starts
  | functionDecl fn =>
    obtain ⟨span, id, params, body⟩ := fn
    exact reads_statement_functionDecl covers next h short starts
  | block b =>
    rw [Stmt.text_block] at short starts
    have read := reads_braceStatement covers h short next starts
    rw [Block.text, List.cons_append, Cursor.Starts, View.of_openBrace] at starts
    simpa only [statement, reads_bind, reads_look, starts.token] using read
  | ret span argument => exact reads_statement_ret covers next h short starts
  | forLoop loop =>
    obtain ⟨span, init, test, update, body⟩ := loop
    exact reads_statement_forLoop covers next h short dangling starts
  | whileLoop loop =>
    obtain ⟨span, test, body⟩ := loop
    exact reads_statement_whileLoop covers next h short dangling starts
  | ifElse branch =>
    obtain ⟨span, test, consequent, alternate⟩ := branch
    exact reads_statement_ifElse covers next h short dangling starts
  | brk span =>
    rw [Stmt.text_brk, List.append_assoc] at starts
    obtain ⟨token, behind⟩ := starts.keyword (by decide) (by simp [Breaks, breakChars])
    simp only [statement, reads_bind, reads_look, token, keywordStatement?, Option.getD_some, reads_accept,
      breakStatement, reads_extentFrom, reads_pure]
    refine (reads_jumpTail next (behind .ending)).mono ?_
    rintro _ d ⟨rfl, starts'⟩
    exact ⟨.brk, starts'⟩
  | cont span =>
    rw [Stmt.text_cont, List.append_assoc] at starts
    obtain ⟨token, behind⟩ := starts.keyword (by decide) (by simp [Breaks, breakChars])
    simp only [statement, reads_bind, reads_look, token, keywordStatement?, Option.getD_some, reads_accept,
      continueStatement, reads_extentFrom, reads_pure]
    refine (reads_jumpTail next (behind .ending)).mono ?_
    rintro _ d ⟨rfl, starts'⟩
    exact ⟨.cont, starts'⟩
  | throw span argument => exact reads_statement_throw covers next h short starts
  | empty span =>
    rw [Stmt.text_empty, List.cons_append, Cursor.Starts, View.of_semicolon] at starts
    simp only [statement, reads_bind, reads_look, starts.token, reads_accept, reads_pure]
    exact ⟨.empty, next.starts (starts.accept .plain)⟩
  | expression span e => exact reads_statement_expression covers next h short starts
  | unknown node => exact h.elim

end

end IndexedLoop
