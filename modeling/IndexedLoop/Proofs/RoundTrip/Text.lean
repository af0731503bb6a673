import IndexedLoop.Printer
import IndexedLoop.Proofs.RoundTrip.Marks

/-!
# The text of a tree

The text of a tree as the symbols that a cursor sees. The text of a list is cut behind its first member:
what follows is a `Tail`, either a comma and the other members, or what stands behind the list.
-/

namespace IndexedLoop

open Lexical

/-! ## Texts -/

/-- A text in parentheses. -/
def inParens (s : List Symbol) : List Symbol := .char '(' :: (s ++ [Symbol.char ')'])

/-- Texts with commas between them. -/
def joined : List (List Symbol) → List Symbol
  | [] => []
  | [s] => s
  | s :: rest => s ++ .char ',' :: .char ' ' :: joined rest

namespace Rendered

/-- The symbols of the text. -/
def symbols (r : Rendered) : List Symbol := Symbol.ofString r.text

@[simp]
theorem symbols_append (a b : Rendered) : (a ++ b).symbols = a.symbols ++ b.symbols :=
  Symbol.ofString_append a.text b.text

@[simp]
theorem symbols_ofText (s : String) : (ofText s).symbols = Symbol.ofString s := rfl

theorem symbols_wrapIf (b : Bool) (r : Rendered) :
    (r.wrapIf b).symbols = if b then inParens r.symbols else r.symbols := by
  cases b
  · rfl
  · simp only [wrapIf, ↓reduceIte, symbols_append, symbols_ofText, inParens]
    rfl

theorem symbols_join (rs : List Rendered) : (join ", " rs).symbols = joined (rs.map symbols) := by
  induction rs with
  | nil => rfl
  | cons r rest ih =>
    cases rest with
    | nil => rfl
    | cons r' rest =>
      simp only [join, symbols_append, symbols_ofText, ih, List.map_cons, joined, List.append_assoc]
      rfl

end Rendered

/-! ## Expressions -/

namespace Identifier

/-- The text of a name. -/
def text (id : Identifier) : List Symbol := id.name.toList.map .char

end Identifier

namespace Expr

/-- The text of an expression. -/
def text (e : Expr) : List Symbol := e.render.symbols

/-- The text of an expression, in parentheses if the condition holds. -/
def textIf (e : Expr) (b : Bool) : List Symbol := if b then inParens e.text else e.text

/-- The text of a member of a list. -/
def listed (e : Expr) : List Symbol := e.textIf e.isSequence

theorem symbols_wrapIf (e : Expr) (b : Bool) : (e.render.wrapIf b).symbols = e.textIf b :=
  Rendered.symbols_wrapIf b e.render

theorem isAmbiguous_of_plainCallee {e : Expr} (h : e.isPlainCallee = true) : e.isAmbiguous = false := by
  cases e <;> first | rfl | cases h

end Expr

/-- The text of an element of an array. -/
def elementText : Option Expr → List Symbol
  | none => []
  | some e => e.listed

/-- The text of a property. -/
def Property.text (p : Property) : List Symbol :=
  p.key.text ++ .char ':' :: .char ' ' :: p.value.listed

/-- The text of a variable of a declaration. -/
def Declarator.text (d : Declarator) : List Symbol :=
  match d.init with
  | none => d.id.text
  | some init => d.id.text ++ .char ' ' :: .char '=' :: .char ' ' :: init.listed

theorem renderExprs_symbols (es : List Expr) :
    (renderExprs es).map Rendered.symbols = es.map Expr.text := by
  induction es with
  | nil => rfl
  | cons e es ih =>
    simp only [renderExprs, List.map_cons, ih]
    rfl

theorem renderListed_symbols (es : List Expr) :
    (renderListed es).map Rendered.symbols = es.map Expr.listed := by
  induction es with
  | nil => rfl
  | cons e es ih =>
    simp only [renderListed, List.map_cons, ih, Expr.symbols_wrapIf]
    rfl

theorem renderElements_symbols (es : List (Option Expr)) :
    (renderElements es).map Rendered.symbols = es.map elementText := by
  induction es with
  | nil => rfl
  | cons e es ih =>
    cases e with
    | none =>
      simp only [renderElements, List.map_cons, ih]
      rfl
    | some e =>
      simp only [renderElements, List.map_cons, ih, Expr.symbols_wrapIf]
      rfl

theorem renderProperties_symbols (ps : List Property) :
    (renderProperties ps).map Rendered.symbols = ps.map Property.text := by
  induction ps with
  | nil => rfl
  | cons p ps ih =>
    obtain ⟨span, key, value⟩ := p
    simp only [renderProperties, List.map_cons, ih, Rendered.symbols_append, Expr.symbols_wrapIf,
      List.append_assoc]
    rfl

theorem renderDeclarators_symbols (ds : List Declarator) :
    (renderDeclarators ds).map Rendered.symbols = ds.map Declarator.text := by
  induction ds with
  | nil => rfl
  | cons d ds ih =>
    obtain ⟨span, id, init⟩ := d
    cases init with
    | none =>
      simp only [renderDeclarators, List.map_cons, ih]
      rfl
    | some init =>
      simp only [renderDeclarators, List.map_cons, ih, Rendered.symbols_append, Expr.symbols_wrapIf,
        Rendered.symbols_ofText, Declarator.text]
      congr 1
      simp [Symbol.ofString, Identifier.text, Expr.listed, toString]

namespace Expr

variable (span : Span)

attribute [local simp] render

theorem text_assignment (op : AssignOp) (left right : Expr) : (assignment span op left right).text =
    left.text ++ .char ' ' :: (Symbol.ofString op.token ++ .char ' ' :: right.listed) := by
  simp [text, symbols_wrapIf, listed, Symbol.ofString, toString]

/-- The text between the parentheses of a binary expression. -/
def operation (op : BinaryOp) (left right : Expr) : List Symbol :=
  left.textIf (left.isLoose || (op == .pow && left.isSigned)) ++
    .char ' ' :: (Symbol.ofString op.token ++ .char ' ' :: right.textIf right.isLoose)

theorem text_binary (op : BinaryOp) (left right : Expr) :
    (binary span op left right).text = inParens (operation op left right) := by
  simp [text, symbols_wrapIf, inParens, operation, Symbol.ofString, toString]

theorem text_unary (op : UnaryOp) (argument : Expr) : (unary span op argument).text =
    Symbol.ofString op.token ++ .char ' ' :: argument.textIf argument.isLoose := by
  simp [text, symbols_wrapIf, Symbol.ofString, toString]

theorem text_sequence (es : List Expr) : (sequence span es).text = joined (es.map text) := by
  rw [text, render, Rendered.symbols_join, renderExprs_symbols]

theorem text_updateLeading (op : UpdateOp) (argument : Expr) : (update span op true argument).text =
    Symbol.ofString op.token ++ argument.textIf argument.isLoose := by
  simp [text, symbols_wrapIf]

theorem text_update (op : UpdateOp) (argument : Expr) : (update span op false argument).text =
    argument.textIf argument.isLoose ++ Symbol.ofString op.token := by
  simp [text, symbols_wrapIf]

theorem text_call (callee : Expr) (args : List Expr) : (call span callee args).text =
    callee.textIf callee.isAmbiguous ++ inParens (joined (args.map listed)) := by
  simp [text, symbols_wrapIf, Rendered.symbols_join, renderListed_symbols, inParens,
    Symbol.ofString]

theorem text_new (callee : Expr) (args : List Expr) : (new span callee args).text =
    Symbol.ofString "new" ++ .char ' ' :: (callee.textIf (!callee.isPlainCallee) ++
      inParens (joined (args.map listed))) := by
  simp [text, symbols_wrapIf, Rendered.symbols_join, renderListed_symbols, inParens,
    Symbol.ofString]

theorem text_conditional (test consequent alternate : Expr) :
    (conditional span test consequent alternate).text =
      test.textIf test.isLoose ++ .char '?' :: (consequent.listed ++
        .char ' ' :: .char ':' :: .char ' ' :: alternate.listed) := by
  simp [text, symbols_wrapIf, listed, Symbol.ofString]

theorem text_dot (object : Expr) (id : Identifier) :
    (member span object (identifier id) .dot).text =
      object.textIf object.isAmbiguous ++ .char '.' :: id.text := by
  simp [text, symbols_wrapIf, Identifier.text, Symbol.ofString]

theorem text_bracket (object property : Expr) : (member span object property .bracket).text =
    object.textIf object.isAmbiguous ++ .char '[' :: (property.text ++ [Symbol.char ']']) := by
  simp [text, symbols_wrapIf, Symbol.ofString]

theorem text_object (ps : List Property) : (object span ps).text =
    .char '\x7b' :: (joined (ps.map Property.text) ++ [Symbol.char '\x7d']) := by
  simp [text, Rendered.symbols_join, renderProperties_symbols, Symbol.ofString]

theorem text_array (es : List (Option Expr)) : (array span es).text =
    .char '[' :: (joined (es.map elementText) ++
      (if es.getLast?.any Option.isNone then [.char ','] else []) ++ [Symbol.char ']']) := by
  rw [text, render]
  split <;> simp [Rendered.symbols_join, renderElements_symbols, Symbol.ofString]

theorem text_this : (this span).text = Symbol.ofString "this" := rfl

theorem text_identifier (id : Identifier) : (identifier id).text = id.text := rfl

theorem text_string (raw : String) : (literal ⟨span, .string raw⟩).text =
    ('"' :: (raw.toList ++ ['"'])).map .char := by
  simp [text, Literal.render, Symbol.ofString, toString]

theorem text_number (value : Binary64) : (literal ⟨span, .number value⟩).text =
    Symbol.ofString (numberStyle.format value) := rfl

theorem text_boolean (value : Bool) : (literal ⟨span, .boolean value⟩).text =
    Symbol.ofString (if value then "true" else "false") := by
  cases value <;> rfl

theorem text_null : (literal ⟨span, .null⟩).text = Symbol.ofString "null" := rfl

theorem text_regExp (raw : String) : (literal ⟨span, .regExp raw⟩).text = raw.toList.map .char := rfl

end Expr

/-! ## Functions -/

/-- The text of statements. -/
def stmtsText (body : List Stmt) : List Symbol := (Rendered.concat (renderStmts body)).symbols

/-- The text of a statement. -/
def Stmt.text (s : Stmt) : List Symbol := s.render.symbols

/-- The text of a block. -/
def Block.text (b : Block) : List Symbol :=
  .char '\x7b' :: .char '\n' :: (stmtsText b.body ++ [Symbol.char '\x7d'])

theorem stmtsText_nil : stmtsText [] = [] := rfl

theorem stmtsText_cons (s : Stmt) (rest : List Stmt) :
    stmtsText (s :: rest) = s.text ++ stmtsText rest := by
  rw [stmtsText, renderStmts, Rendered.concat, Rendered.symbols_append]
  rfl

theorem symbols_block (b : Block) : b.render.symbols = b.text := by
  obtain ⟨span, body⟩ := b
  simp only [Block.render, Rendered.symbols_append, List.append_assoc]
  rfl

/-- The head of a function: its name, and its parameters in parentheses. -/
def headText (name : List Symbol) (params : List Expr) : List Symbol :=
  Symbol.ofString "function" ++ .char ' ' :: (name ++ inParens (joined (params.map Expr.listed)))

theorem symbols_functionHead (name : String) (params : List Expr) :
    (functionHead name (renderListed params)).symbols = headText (name.toList.map .char) params := by
  simp [functionHead, headText, Rendered.symbols_join, renderListed_symbols, inParens, Symbol.ofString,
    toString]

/-- The name of a function expression, if it has one. -/
def nameText (id : Option Identifier) : List Symbol := (id.map Identifier.text).getD []

theorem Expr.text_function (span : Span) (id : Option Identifier) (params : List Expr) (body : Block) :
    (function ⟨span, id, params, body⟩).text = headText (nameText id) params ++ body.text := by
  simp only [text, render, Rendered.symbols_append, symbols_functionHead, symbols_block]
  cases id <;> rfl

/-! ## Statements -/

/-- The text of a declaration, without what ends it. -/
def Declaration.text (d : Declaration) : List Symbol :=
  Symbol.ofString d.kind.token ++ .char ' ' :: joined (d.declarators.map Declarator.text)

/-- The text of an expression that may be left out. -/
def optionText : Option Expr → List Symbol
  | none => []
  | some e => e.text

/-- The text of the first clause of a header. -/
def initText : Option ForInit → List Symbol
  | none => []
  | some (.declaration d) => d.text
  | some (.expression e) => e.text

/-- The expression would be taken for a function declaration or a block where a statement starts. -/
def Expr.isFenced (e : Expr) : Bool :=
  e.render.text.startsWith "function " || e.render.text.startsWith "\x7b"

theorem Expr.isFenced_iff (e : Expr) :
    e.isFenced = true ↔ "function ".toList <+: e.render.text.toList ∨ "\x7b".toList <+: e.render.text.toList := by
  simp only [isFenced, Bool.or_eq_true, String.startsWith, String.Slice.startsWith_string_iff, String.copy_toSlice]

theorem symbols_declaration (d : Declaration) : d.render.symbols = d.text := by
  obtain ⟨span, kind, ds⟩ := d
  simp [Declaration.render, Declaration.text, Rendered.symbols_join, renderDeclarators_symbols, Symbol.ofString,
    toString]

theorem symbols_option (e : Option Expr) : (renderOption e).symbols = optionText e := by
  cases e <;> rfl

theorem symbols_forInit (init : Option ForInit) : (renderForInit init).symbols = initText init := by
  rcases init with _ | d | e
  · rfl
  · exact symbols_declaration d
  · rfl

namespace Stmt

variable (span : Span)

attribute [local simp] render

theorem text_declaration (d : Declaration) :
    (declaration d).text = d.text ++ [Symbol.char ';', .char '\n'] := by
  simp [text, symbols_declaration, Symbol.ofString]

theorem text_functionDecl (id : Identifier) (params : List Expr) (body : Block) :
    (functionDecl ⟨span, id, params, body⟩).text =
      headText id.text params ++ (body.text ++ [Symbol.char '\n']) := by
  simp [text, symbols_functionHead, symbols_block, Identifier.text, Symbol.ofString]

theorem text_block (b : Block) : (block b).text = b.text := by
  rw [text, render, symbols_block]

theorem text_ret (argument : Option Expr) : (ret span argument).text =
    Symbol.ofString "return" ++ .char ' ' :: (optionText argument ++ [Symbol.char ';', .char '\n']) := by
  simp [text, symbols_option, Symbol.ofString]

theorem text_forLoop (init : Option ForInit) (test update : Option Expr) (body : Stmt) :
    (forLoop ⟨span, init, test, update, body⟩).text =
      Symbol.ofString "for" ++ .char ' ' :: .char '(' :: (initText init ++ .char ';' :: (optionText test ++
        .char ';' :: (optionText update ++ .char ')' :: body.text))) := by
  simp [text, symbols_option, symbols_forInit, Symbol.ofString]

theorem text_whileLoop (test : Expr) (body : Stmt) : (whileLoop ⟨span, test, body⟩).text =
    Symbol.ofString "while" ++ .char ' ' :: .char '(' :: (test.text ++ .char ')' :: body.text) := by
  simp [text, Expr.text, Symbol.ofString]

theorem text_ifThen (test : Expr) (consequent : Stmt) : (ifElse ⟨span, test, consequent, none⟩).text =
    Symbol.ofString "if" ++ .char ' ' :: .char '(' :: (test.text ++ .char ')' :: consequent.text) := by
  have empty : (Rendered.ofText "").text.isEmpty = true := rfl
  simp [text, ifElseText, empty, Expr.text, Symbol.ofString]

theorem text_ifElse (test : Expr) {consequent alternate : Stmt} (closed : consequent.endsInOpenIf = false)
    (some : alternate.text ≠ []) : (ifElse ⟨span, test, consequent, alternate⟩).text =
      Symbol.ofString "if" ++ .char ' ' :: .char '(' :: (test.text ++ .char ')' :: (consequent.text ++
        .char ' ' :: (Symbol.ofString "else" ++ .char ' ' :: alternate.text))) := by
  have filled : alternate.render.text.isEmpty = false := by
    rw [Bool.eq_false_iff]
    intro empty
    rw [String.isEmpty_iff] at empty
    exact some (by simp [text, Rendered.symbols, empty, Symbol.ofString])
  simp [text, ifElseText, filled, closed, Expr.text, Symbol.ofString]

theorem text_brk : (brk span).text = Symbol.ofString "break" ++ [Symbol.char ';', .char '\n'] := by
  simp [text, Symbol.ofString]

theorem text_cont : (cont span).text = Symbol.ofString "continue" ++ [Symbol.char ';', .char '\n'] := by
  simp [text, Symbol.ofString]

theorem text_throw (argument : Expr) : (throw span argument).text =
    Symbol.ofString "throw" ++ .char ' ' :: (argument.text ++ [Symbol.char ';', .char '\n']) := by
  simp [text, Expr.text, Symbol.ofString]

theorem text_empty : (empty span).text = [.char ';', .char '\n'] := by
  simp [text, Symbol.ofString]

theorem text_expression (e : Expr) :
    (expression span e).text = e.textIf e.isFenced ++ [Symbol.char ';', .char '\n'] := by
  rw [text, render, expressionText, Rendered.symbols_append, Rendered.symbols_wrapIf]
  rfl

end Stmt

/-! ## Texts behind an operand -/

namespace Tail

/-- The text behind an operand is not empty. -/
theorem exists_text_eq (t : Tail) : ∃ c rest, t.text = .char c :: rest ∧ c ∈ breakChars := by
  have breaks := t.breaks
  have some : t.text ≠ [] := by
    rcases t with ⟨m, rest, fits⟩
    cases m with
    | update op => cases op <;> simp [text, body, Mark.gap, Mark.sign, UpdateOp.token, Symbol.ofString]
    | close c => cases c <;> simp [text, body, Mark.gap, Mark.sign, Closer.sign, Symbol.ofString]
    | _ => simp [text, body, Mark.gap, Mark.sign, Symbol.ofString]
  cases h : t.text with
  | nil => exact absurd h some
  | cons x rest =>
    obtain ⟨c, mem, rfl⟩ := breaks x (by rw [h]; rfl)
    exact ⟨c, rest, rfl, mem⟩

/-- An assignment and its value. -/
def assigned (op : AssignOp) (s : List Symbol) : Tail := ⟨.assign op, .char ' ' :: s, s, rfl⟩

/-- An operator and its right side. -/
def operated (op : BinaryOp) (s : List Symbol) : Tail := ⟨.binary op, .char ' ' :: s, s, rfl⟩

/-- A list of arguments. -/
def called (s : List Symbol) : Tail := ⟨.paren, s, trivial⟩

/-- An index. -/
def indexed (s : List Symbol) : Tail := ⟨.bracket, s, trivial⟩

/-- The end of an expression. -/
def closed (c : Closer) (s : List Symbol) : Tail := ⟨.close c, s, trivial⟩

/-- An update. -/
def updated (op : UpdateOp) (t : Tail) : Tail where
  mark := .update op
  rest := t.text
  fits := by
    obtain ⟨c, rest, h, mem⟩ := t.exists_text_eq
    refine ⟨c, rest, h, ?_⟩
    rintro rfl
    exact absurd mem (by decide)

/-- The name of a property. -/
def dotted (id : Identifier) (h : Lexical.IsName id.name.toList) (s : List Symbol) : Tail where
  mark := .dot
  rest := id.text ++ s
  fits := by
    obtain ⟨c, more, e, -, digit⟩ := h.first
    obtain ⟨c', more', e', -, sign⟩ := h.opens
    rw [e, List.cons.injEq] at e'
    obtain ⟨rfl, rfl⟩ := e'
    simp only [signs, List.mem_cons, List.not_mem_nil, or_false, not_or] at sign
    exact ⟨c, more.map .char ++ s, by simp [Identifier.text, e], digit, by simp [sign]⟩

/-- The branches of a conditional. -/
def asked (s : List Symbol) (h : ∃ c rest, s = .char c :: rest ∧ c ∉ ['.', '?']) : Tail := ⟨.ask, s, h⟩

theorem text_assigned (op : AssignOp) (s : List Symbol) :
    (assigned op s).text = .char ' ' :: (Symbol.ofString op.token ++ .char ' ' :: s) := rfl

theorem text_operated (op : BinaryOp) (s : List Symbol) :
    (operated op s).text = .char ' ' :: (Symbol.ofString op.token ++ .char ' ' :: s) := rfl

theorem text_called (s : List Symbol) : (called s).text = .char '(' :: s := by
  simp [called, text, body, Mark.gap, Mark.sign, Symbol.ofString]

theorem text_indexed (s : List Symbol) : (indexed s).text = .char '[' :: s := by
  simp [indexed, text, body, Mark.gap, Mark.sign, Symbol.ofString]

theorem text_updated (op : UpdateOp) (t : Tail) :
    (updated op t).text = Symbol.ofString op.token ++ t.text := rfl

theorem text_dotted (id : Identifier) (h : Lexical.IsName id.name.toList) (s : List Symbol) :
    (dotted id h s).text = .char '.' :: (id.text ++ s) := by
  simp [dotted, text, body, Mark.gap, Mark.sign, Symbol.ofString]

theorem text_asked (s : List Symbol) (h : ∃ c rest, s = .char c :: rest ∧ c ∉ ['.', '?']) :
    (asked s h).text = .char '?' :: s := by
  simp [asked, text, body, Mark.gap, Mark.sign, Symbol.ofString]

theorem text_comma (s : List Symbol) : (closed .comma s).text = .char ',' :: s := by
  simp [closed, text, body, Mark.gap, Mark.sign, Closer.sign, Symbol.ofString]

theorem text_semicolon (s : List Symbol) : (closed .semicolon s).text = .char ';' :: s := by
  simp [closed, text, body, Mark.gap, Mark.sign, Closer.sign, Symbol.ofString]

theorem text_paren (s : List Symbol) : (closed .paren s).text = .char ')' :: s := by
  simp [closed, text, body, Mark.gap, Mark.sign, Closer.sign, Symbol.ofString]

theorem text_bracket (s : List Symbol) : (closed .bracket s).text = .char ']' :: s := by
  simp [closed, text, body, Mark.gap, Mark.sign, Closer.sign, Symbol.ofString]

theorem text_brace (s : List Symbol) : (closed .brace s).text = .char '\x7d' :: s := by
  simp [closed, text, body, Mark.gap, Mark.sign, Closer.sign, Symbol.ofString]

theorem text_colon (s : List Symbol) : (closed .colon s).text = .char ' ' :: .char ':' :: s := by
  simp [closed, text, body, Mark.gap, Mark.sign, Closer.sign, Symbol.ofString]

end Tail

namespace Declarator

/-- What stands behind the name of a variable. -/
def tail (v : Declarator) (t : Tail) : Tail :=
  match v.init with
  | none => t
  | some init => .assigned .assign (init.listed ++ t.text)

theorem text_tail (v : Declarator) (t : Tail) : v.text ++ t.text = v.id.text ++ (v.tail t).text := by
  obtain ⟨span, id, init⟩ := v
  cases init with
  | none => rfl
  | some init => simp [text, tail, Tail.text_assigned, AssignOp.token, Symbol.ofString]

end Declarator

/-! ## Lists -/

namespace Tail

/-- What stands behind a member of a list: the other members, if there are any. -/
def behind (t : Tail) : List (List Symbol) → Tail
  | [] => t
  | s :: rest => closed .comma (.char ' ' :: (joined (s :: rest) ++ t.text))

end Tail

theorem joined_cons (s : List Symbol) (rest : List (List Symbol)) (t : Tail) :
    joined (s :: rest) ++ t.text = s ++ (t.behind rest).text := by
  cases rest with
  | nil => rfl
  | cons s' rest => simp [joined, Tail.behind, Tail.text_comma]

end IndexedLoop
