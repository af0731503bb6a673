import IndexedLoop.Proofs.Numerals
import IndexedLoop.Proofs.RoundTrip.Canonical
import IndexedLoop.Proofs.RoundTrip.Reads
import IndexedLoop.Proofs.RoundTrip.Text

/-!
# How the text of an expression starts

The first token of an expression is a name, a literal, a keyword, a bracket or an operator in front of an
operand (`Expr.lead`). Every such text is calm, so a cursor sees this token, and a blank in front of it
makes no difference.
-/

namespace IndexedLoop

open Lexical

/-! ## What is seen of the first token -/

/-- A name is seen, in front of everything that ends it. -/
theorem View.of_name {cs : List Char} (h : IsName cs) {rest : List Symbol} (stop : Breaks rest) :
    View.of .plain (cs.map .char ++ rest) =
      ⟨.word (String.ofList cs), cs.map .char ++ rest, rest⟩ := by
  have read : Token.read .plain (cs.map .char ++ rest) = (.word (String.ofList cs), cs.length) :=
    Token.read_name rfl h stop.wordPiece_eq
  have drop : (cs.map Symbol.char ++ rest).drop cs.length = rest := by
    rw [← List.length_map (f := Symbol.char), List.drop_left]
  obtain ⟨c, more, e, blank, other⟩ := h.opens
  simp only [signs, List.mem_cons, List.not_mem_nil, or_false, not_or] at other
  have blanks : blanks (cs.map .char ++ rest) = 0 := by
    simp [e, Lexical.blanks, runLength, Symbol.satisfies, blank]
  have markup : markupComment? (cs.map .char ++ rest) = none := by
    simp [markupComment?, e, runLength, Symbol.satisfies, Semicolon.not_asciiBlank blank,
      Semicolon.not_separator blank, startsWith, Ne.symm other.2.2.2.2.2.1, Ne.symm other.2.2.2.2.2.2.2.1]
  have comment : blanksAndComment? (cs.map .char ++ rest) = none := by
    rw [e, List.map_cons, List.cons_append]
    exact blanksAndComment?_char blank (by simp [other]) _
  have := View.of_eq .plain (fun e => by cases e) (fun e => by cases e) (fun _ _ => markup) comment
  rw [this, blanks, List.drop_zero, read, drop]

theorem View.of_identifier {id : Identifier} (h : id.IsProperty) {rest : List Symbol} (stop : Breaks rest) :
    View.of .plain (id.text ++ rest) = ⟨.word id.name, id.text ++ rest, rest⟩ := by
  rw [Identifier.text, View.of_name h stop, String.ofList_toList]

/-- The words that start an expression and are no names and no operators. -/
def leadWords : List String := ["this", "true", "false", "null", "new", "function"]

/-- These words, and those that start a statement or a branch of one. -/
def keywords : List String :=
  leadWords ++ ["var", "let", "const", "return", "for", "while", "if", "else", "break", "continue", "throw"]

theorem keywords_isName {w : String} (h : w ∈ keywords) :
    IsName w.toList ∧ w.toList ∉ ["in".toList, "instanceof".toList] := by
  have : ∀ w ∈ keywords, (w.toList.all isWordChar && w.toList.head?.any fun c => !c.isDigit) = true ∧
      w.toList ∉ ["in".toList, "instanceof".toList] := by decide
  exact ⟨.of_chars (this w h).1, (this w h).2⟩

theorem leadWords_isName {w : String} (h : w ∈ leadWords) :
    IsName w.toList ∧ w.toList ∉ ["in".toList, "instanceof".toList] :=
  keywords_isName (List.mem_append_left _ h)

/-- How a text starts that has the mark `m` behind its first operand. A colon stands behind a name only if
it is that mark. -/
inductive Lead (m : Mark) : List Symbol → Prop
  | name {id : Identifier} {t : Tail} (reference : id.IsReference)
    (mark : t.mark = m ∨ t.mark ≠ .close .colon) : Lead m (id.text ++ t.text)
  | keyword {w : String} {rest : List Symbol} (mem : w ∈ leadWords) (stop : Breaks rest)
    (space : w = "function" → rest.head? = some (.char ' ')) : Lead m (Symbol.ofString w ++ rest)
  | number {p : NumberLiteral.Parts} {rest : List Symbol} (stop : Breaks rest)
    (point : rest.head? ≠ some (.char '.')) : Lead m (p.text.map .char ++ rest)
  | string {body : List Char} {rest : List Symbol} (h : StringBody body) :
    Lead m (('"' :: (body ++ ['"'])).map .char ++ rest)
  | regex {c : Char} {rest : List Symbol} (h : c ∉ ['/', '*', '?']) :
    Lead m (.char '/' :: .char c :: rest)
  | bracket {p : String} {rest : List Symbol} (mem : p ∈ ["(", "[", "\x7b"]) :
    Lead m (Symbol.ofString p ++ rest)
  | unary {op : UnaryOp} {rest : List Symbol} : Lead m (Symbol.ofString op.token ++ .char ' ' :: rest)
  | update {op : UpdateOp} {c : Char} {rest : List Symbol} (h : c ≠ '>') :
    Lead m (Symbol.ofString op.token ++ .char c :: rest)

theorem Identifier.IsReference.not_operator {id : Identifier} (h : id.IsReference) :
    id.name.toList ∉ ["in".toList, "instanceof".toList] := by
  have : ∀ w ∈ ["in", "instanceof"], w ∈ reservedWords := by decide
  intro mem
  simp only [List.mem_cons, List.not_mem_nil, or_false, String.toList_inj] at mem
  exact h.2 (this _ (by simpa using mem))

/-- The decimal digits. -/
def digitChars : List Char := "0123456789".toList

theorem mem_digitChars {c : Char} (h : c.isDigit = true) : c ∈ digitChars := by
  have bounds : 48 ≤ c.toNat ∧ c.toNat ≤ 57 := by
    simp only [Char.isDigit, Bool.and_eq_true, decide_eq_true_eq, ge_iff_le, UInt32.le_iff_toNat_le] at h
    exact h
  rw [← Char.ofNat_toNat c]
  generalize c.toNat = n at bounds
  have : ∀ n ≤ 57, 48 ≤ n → Char.ofNat n ∈ digitChars := by decide
  exact this n bounds.2 bounds.1

theorem Lead.calm {m : Mark} {s : List Symbol} (h : Lead m s) : Calm s := by
  cases h with
  | name reference _ =>
    exact Calm.of_name reference.1 reference.not_operator (Tail.breaks _).wordPiece_eq
  | keyword mem stop _ =>
    obtain ⟨isName, operator⟩ := leadWords_isName mem
    exact Calm.of_name isName operator stop.wordPiece_eq
  | @number p rest =>
    obtain ⟨d, more, text, digit, -⟩ := p.exists_text_eq
    rw [text, List.map_cons, List.cons_append]
    have : ∀ c ∈ digitChars, isBlank c = false ∧ c ∉ restless := by decide
    obtain ⟨blank, other⟩ := this d (mem_digitChars digit)
    exact Calm.of_char blank other _
  | string h => exact Calm.of_char (c := '"') (by decide) (by decide) _
  | regex h => exact Calm.of_slash h _
  | bracket mem =>
    simp only [List.mem_cons, List.not_mem_nil, or_false] at mem
    rcases mem with rfl | rfl | rfl
    · exact Calm.of_char (c := '(') (by decide) (by decide) _
    · exact Calm.of_char (c := '[') (by decide) (by decide) _
    · exact Calm.of_char (c := '\x7b') (by decide) (by decide) _
  | @unary op rest =>
    cases op with
    | not => exact Calm.of_char (c := '!') (by decide) (by decide) _
    | bitNot => exact Calm.of_char (c := '~') (by decide) (by decide) _
    | neg => exact Calm.of_binary .sub _
    | plus => exact Calm.of_binary .add _
    | typeOf => exact Calm.of_char (c := 't') (by decide) (by decide) _
    | void => exact Calm.of_char (c := 'v') (by decide) (by decide) _
    | delete => exact Calm.of_char (c := 'd') (by decide) (by decide) _
  | update h => exact Calm.of_update _ h _

/-- A token that calmly starts a text is seen. -/
theorem View.of_read {s : List Symbol} (calm : Calm s) {token : Token} {n : Nat}
    (read : Token.read .plain s = (token, n)) : View.of .plain s = ⟨token, s, s.drop n⟩ := by
  rw [calm.view, read]

theorem View.of_keyword {w : String} (mem : w ∈ keywords) {rest : List Symbol} (stop : Breaks rest) :
    View.of .plain (Symbol.ofString w ++ rest) = ⟨.word w, Symbol.ofString w ++ rest, rest⟩ := by
  have := View.of_name (keywords_isName mem).1 stop
  rwa [String.ofList_toList] at this

theorem View.of_number {p : NumberLiteral.Parts} {rest : List Symbol} (stop : Breaks rest)
    (point : rest.head? ≠ some (.char '.')) : View.of .plain (p.text.map .char ++ rest) =
      ⟨.number (p.text.map .char), p.text.map .char ++ rest, rest⟩ := by
  rw [View.of_read (Lead.number (m := .dot) stop point).calm (Token.read_number .plain p stop point)]
  rw [← List.length_map (f := Symbol.char), List.drop_left]

theorem View.of_string {body : List Char} (h : StringBody body) (rest : List Symbol) :
    View.of .plain (('"' :: (body ++ ['"'])).map .char ++ rest) =
      ⟨.string (('"' :: (body ++ ['"'])).map .char), ('"' :: (body ++ ['"'])).map .char ++ rest, rest⟩ := by
  have length : body.length + 2 = (('"' :: (body ++ ['"'])).map Symbol.char).length := by simp
  rw [View.of_read (Lead.string (m := .dot) h).calm (Token.read_string .plain h rest), length, List.drop_left]

theorem View.of_punct {p : String} {rest : List Symbol} (calm : Calm (Symbol.ofString p ++ rest))
    (mem : p ∈ punctuators) (read : punctuator? (Symbol.ofString p ++ rest) = some p) (point : p ≠ ".") :
    View.of .plain (Symbol.ofString p ++ rest) = ⟨.punct p, Symbol.ofString p ++ rest, rest⟩ := by
  have length : p.length = (Symbol.ofString p).length := by simp [String.length]
  rw [View.of_read calm (Token.read_punct .plain mem read fun e => absurd e point), length, List.drop_left]

theorem View.of_bracket {p : String} (mem : p ∈ ["(", "[", "\x7b"]) (rest : List Symbol) :
    View.of .plain (Symbol.ofString p ++ rest) = ⟨.punct p, Symbol.ofString p ++ rest, rest⟩ := by
  have : ∀ p ∈ ["(", "[", "\x7b"], p ∈ punctuators ∧ isSolitary p = true ∧ p ≠ "." := by decide
  obtain ⟨punct, solitary, point⟩ := this p mem
  exact View.of_punct (Lead.bracket (m := .dot) mem).calm punct (punctuator?_solitary solitary rest) point

theorem View.of_update (op : UpdateOp) {c : Char} (h : c ≠ '>') (rest : List Symbol) :
    View.of .plain (Symbol.ofString op.token ++ .char c :: rest) =
      ⟨.punct op.token, Symbol.ofString op.token ++ .char c :: rest, .char c :: rest⟩ := by
  have : op.token ∈ punctuators ∧ isSolitary op.token = true ∧ op.token ≠ "." := by
    cases op <;> decide
  obtain ⟨punct, solitary, point⟩ := this
  exact View.of_punct (Lead.update (m := .dot) h).calm punct (punctuator?_solitary solitary _) point

/-- The token of an operator in front of an operand. -/
def UnaryOp.lexical : UnaryOp → Token
  | .typeOf => .word "typeof"
  | .void => .word "void"
  | .delete => .word "delete"
  | op => .punct op.token

theorem View.of_unary (op : UnaryOp) (rest : List Symbol) :
    View.of .plain (Symbol.ofString op.token ++ .char ' ' :: rest) =
      ⟨op.lexical, Symbol.ofString op.token ++ .char ' ' :: rest, .char ' ' :: rest⟩ := by
  have calm := (Lead.unary : Lead .dot (Symbol.ofString op.token ++ .char ' ' :: rest)).calm
  have punct (p : String) (calm : Calm (Symbol.ofString p ++ .char ' ' :: rest)) (mem : p ∈ punctuators)
      (point : p ≠ ".") : View.of .plain (Symbol.ofString p ++ .char ' ' :: rest) =
        ⟨.punct p, Symbol.ofString p ++ .char ' ' :: rest, .char ' ' :: rest⟩ :=
    View.of_punct calm mem (punctuator?_blank mem rest) point
  have word (w : String) (name : IsName w.toList) :
      View.of .plain (Symbol.ofString w ++ .char ' ' :: rest) =
        ⟨.word w, Symbol.ofString w ++ .char ' ' :: rest, .char ' ' :: rest⟩ := by
    have := View.of_name name (show Breaks (.char ' ' :: rest) by simp [Breaks, breakChars])
    rwa [String.ofList_toList] at this
  cases op with
  | not => exact punct "!" calm (by decide) (by decide)
  | bitNot => exact punct "~" calm (by decide) (by decide)
  | neg => exact punct "-" calm (by decide) (by decide)
  | plus => exact punct "+" calm (by decide) (by decide)
  | typeOf => exact word "typeof" ⟨.of_chars (by decide), 't', by decide, by decide⟩
  | void => exact word "void" ⟨.of_chars (by decide), 'v', by decide, by decide⟩
  | delete => exact word "delete" ⟨.of_chars (by decide), 'd', by decide, by decide⟩

/-- The slash of a regular expression is seen, with a sign that may follow it. -/
theorem View.of_slash {c : Char} (h : c ∉ ['/', '*', '?']) (rest : List Symbol) :
    ∃ p stop, View.of .plain (.char '/' :: .char c :: rest) =
      ⟨.punct p, .char '/' :: .char c :: rest, stop⟩ ∧ p ∈ ["/", "/="] := by
  have calm := Calm.of_slash h rest
  have other := @Token.read_other .plain '/' (.char c :: rest) (by decide)
    (Token.word_eq_zero (by decide) (by decide) _)
  rw [Token.number_eq_zero (by decide) (by decide), Token.string?_eq_none (by decide)] at other
  have punct : ∃ p, punctuator? (.char '/' :: .char c :: rest) = some p ∧ p ∈ ["/", "/="] := by
    by_cases e : c = '='
    · subst e
      exact ⟨"/=", by simp [punctuator?, punctuators, startsWith], by decide⟩
    · exact ⟨"/", by simp [punctuator?, punctuators, startsWith, Ne.symm e], by decide⟩
  obtain ⟨p, read, mem⟩ := punct
  rw [read] at other
  exact ⟨p, _, View.of_read calm other, mem⟩

namespace Token

/-- An expression can start with this token. -/
def isLead : Token → Bool
  | .word _ | .number _ | .string _ => true
  | .punct p => ["(", "[", "\x7b", "/", "/=", "!", "~", "-", "+", "++", "--"].contains p
  | _ => false

theorem ne_of_isLead {t : Token} (h : t.isLead = true) {p : String} (other : (punct p).isLead = false) :
    t ≠ .punct p := by
  rintro rfl
  rw [h] at other
  cases other

end Token

/-- The tokens that the text of an expression starts with. -/
inductive LeadToken (m : Mark) (s : List Symbol) : Token → Prop
  | name {id : Identifier} {t : Tail} (reference : id.IsReference) (mark : t.mark = m ∨ t.mark ≠ .close .colon)
    (text : s = id.text ++ t.text) : LeadToken m s (.word id.name)
  | keyword {w : String} (mem : w ∈ leadWords) (space : w = "function" → Symbol.ofString "function " <+: s) :
    LeadToken m s (.word w)
  | number (text : List Symbol) : LeadToken m s (.number text)
  | string (text : List Symbol) : LeadToken m s (.string text)
  | slash {p : String} (mem : p ∈ ["/", "/="]) : LeadToken m s (.punct p)
  | bracket {p : String} (mem : p ∈ ["(", "[", "\x7b"]) (starts : Symbol.ofString p <+: s) : LeadToken m s (.punct p)
  | unary (op : UnaryOp) : LeadToken m s op.lexical
  | update (op : UpdateOp) : LeadToken m s (.punct op.token)

theorem Lead.token {m : Mark} {s : List Symbol} (h : Lead m s) : LeadToken m s (View.of .plain s).token := by
  cases h with
  | name reference mark =>
    rw [View.of_identifier reference.1 (Tail.breaks _)]
    exact .name reference mark rfl
  | @keyword w rest mem stop space =>
    rw [View.of_keyword (List.mem_append_left _ mem) stop]
    refine .keyword mem ?_
    rintro rfl
    cases rest with
    | nil => exact absurd (space rfl) (by simp)
    | cons x rest =>
      obtain rfl : x = .char ' ' := Option.some.inj (space rfl)
      exact ⟨rest, rfl⟩
  | number stop point =>
    rw [View.of_number stop point]
    exact .number _
  | string h =>
    rw [View.of_string h]
    exact .string _
  | regex h =>
    obtain ⟨p, stop, view, mem⟩ := View.of_slash h _
    rw [view]
    exact .slash mem
  | bracket mem =>
    rw [View.of_bracket mem]
    exact .bracket mem (List.prefix_append _ _)
  | @unary op rest =>
    rw [View.of_unary]
    exact .unary op
  | @update op c rest h =>
    rw [View.of_update op h]
    exact .update op

theorem Lead.isLead {m : Mark} {s : List Symbol} (h : Lead m s) : (View.of .plain s).token.isLead = true := by
  have token := h.token
  generalize (View.of .plain s).token = t at token
  cases token with
  | name | keyword | number | string => rfl
  | slash mem =>
    have : ∀ p ∈ ["/", "/="], (Token.punct p).isLead = true := by decide
    exact this _ mem
  | bracket mem _ =>
    have : ∀ p ∈ ["(", "[", "\x7b"], (Token.punct p).isLead = true := by decide
    exact this _ mem
  | unary op => cases op <;> decide
  | update op => cases op <;> decide

/-- No text of an expression starts with one of these signs. -/
theorem Lead.first {m : Mark} {s : List Symbol} (h : Lead m s) :
    ∃ c rest, s = .char c :: rest ∧ c ∉ ['.', '?', '>'] := by
  cases h with
  | @name id t reference _ =>
    obtain ⟨c, more, e, -, other⟩ := reference.1.opens
    simp only [signs, List.mem_cons, List.not_mem_nil, or_false, not_or] at other
    exact ⟨c, more.map .char ++ t.text, by simp [Identifier.text, e], by simp [other]⟩
  | @keyword w rest mem _ _ =>
    obtain ⟨c, more, e, -, other⟩ := (leadWords_isName mem).1.opens
    simp only [signs, List.mem_cons, List.not_mem_nil, or_false, not_or] at other
    exact ⟨c, more.map .char ++ rest, by simp [Symbol.ofString, e], by simp [other]⟩
  | @number p rest =>
    obtain ⟨d, more, text, digit, -⟩ := p.exists_text_eq
    have : ∀ c ∈ digitChars, c ∉ ['.', '?', '>'] := by decide
    exact ⟨d, more.map .char ++ rest, by simp [text], this d (mem_digitChars digit)⟩
  | string _ => exact ⟨'"', _, rfl, by decide⟩
  | regex _ => exact ⟨'/', _, rfl, by decide⟩
  | bracket mem =>
    simp only [List.mem_cons, List.not_mem_nil, or_false] at mem
    rcases mem with rfl | rfl | rfl
    · exact ⟨'(', _, rfl, by decide⟩
    · exact ⟨'[', _, rfl, by decide⟩
    · exact ⟨'\x7b', _, rfl, by decide⟩
  | @unary op rest =>
    cases op with
    | not => exact ⟨'!', _, rfl, by decide⟩
    | bitNot => exact ⟨'~', _, rfl, by decide⟩
    | neg => exact ⟨'-', _, rfl, by decide⟩
    | plus => exact ⟨'+', _, rfl, by decide⟩
    | typeOf => exact ⟨'t', _, rfl, by decide⟩
    | void => exact ⟨'v', _, rfl, by decide⟩
    | delete => exact ⟨'d', _, rfl, by decide⟩
  | @update op c rest _ =>
    cases op with
    | increment => exact ⟨'+', _, rfl, by decide⟩
    | decrement => exact ⟨'-', _, rfl, by decide⟩

/-- If the mark is no colon, no colon stands behind the first name. -/
theorem Lead.of_mark {m m' : Mark} {s : List Symbol} (h : Lead m s) (colon : m ≠ .close .colon) :
    Lead m' s := by
  cases h with
  | name reference mark =>
    refine .name reference (.inr ?_)
    rcases mark with rfl | mark
    · exact colon
    · exact mark
  | keyword mem stop space => exact .keyword mem stop space
  | number stop point => exact .number stop point
  | string h => exact .string h
  | regex h => exact .regex h
  | bracket mem => exact .bracket mem
  | unary => exact .unary
  | update h => exact .update h

theorem Lead.of_parens (m : Mark) (s rest : List Symbol) : Lead m (inParens s ++ rest) := by
  have : Lead m (Symbol.ofString "(" ++ (s ++ [Symbol.char ')'] ++ rest)) := .bracket (by decide)
  simpa [inParens, Symbol.ofString] using this

theorem Tail.mark_eq_dot (t : Tail) (h : t.text.head? = some (.char '.')) : t.mark = .dot := by
  rcases t with ⟨m, rest, fits⟩
  cases m with
  | dot => rfl
  | update op => cases op <;> simp [text, body, Mark.gap, Mark.sign, UpdateOp.token, Symbol.ofString] at h
  | close c => cases c <;> simp [text, body, Mark.gap, Mark.sign, Closer.sign, Symbol.ofString] at h
  | _ => simp [text, body, Mark.gap, Mark.sign, Symbol.ofString] at h

/-- The slash of a regular expression starts no comment. -/
theorem IsRegex.slash {cs : List Char} (h : IsRegex cs) (behind : List Symbol) : ∃ a rest,
    cs.map Symbol.char ++ behind = .char '/' :: .char a :: rest ∧ a ∉ ['/', '*', '?'] := by
  obtain ⟨a, body, flags, rfl, regex, other, -⟩ := h
  refine ⟨a, (body ++ '/' :: flags).map .char ++ behind, rfl, fun mem => ?_⟩
  simp only [List.mem_cons, List.not_mem_nil, or_false, not_or] at other mem
  rcases mem with rfl | rfl | rfl
  · cases regex with
    | char plain _ _ => exact plain (by simp)
  · exact other.1 rfl
  · exact other.2 rfl

/-! ## Expressions -/

namespace Expr

/-- Only a point makes the text of an operand longer: a number would take it. -/
def Takes (e : Expr) (m : Mark) : Prop := e.isAmbiguous = true → m ≠ .dot

theorem lead_textIf {e : Expr} {m : Mark} {b : Bool} {t : Tail}
    (h : b = false → Lead m (e.text ++ t.text)) : Lead m (e.textIf b ++ t.text) := by
  cases b with
  | true => exact Lead.of_parens m _ _
  | false => exact h rfl

theorem lead_literal {lit : IndexedLoop.Literal} (h : lit.value.Canonical) (t : Tail)
    (takes : (literal lit).Takes t.mark) : Lead t.mark ((literal lit).text ++ t.text) := by
  obtain ⟨span, value⟩ := lit
  cases value with
  | string raw =>
    rw [text_string]
    exact .string h
  | number value =>
    obtain ⟨p, text, -⟩ := NumberLiteral.format_parts h.1 h.2
    have symbols : Symbol.ofString (numberStyle.format value) = p.text.map .char := by
      simp [text, Symbol.ofString]
    rw [text_number, symbols]
    exact .number t.breaks fun point => takes rfl (t.mark_eq_dot point)
  | boolean value =>
    rw [text_boolean]
    cases value with
    | true => exact .keyword (by decide) t.breaks (by simp)
    | false => exact .keyword (by decide) t.breaks (by simp)
  | regExp raw =>
    obtain ⟨c, rest, text, other⟩ := IsRegex.slash h t.text
    rw [text_regExp, text]
    exact .regex other
  | null =>
    rw [text_null]
    exact .keyword (by decide) t.breaks (by simp)
  | other kind raw => exact h.elim

variable {rule : TargetRule}

/-- How the text of an expression starts, by its first operand. -/
theorem lead : (e : Expr) → e.Canonical rule → (t : Tail) → e.Takes t.mark →
    Lead t.mark (e.text ++ t.text)
  | .assignment _ op left right, h, t, _ => by
    have := left.lead h.2.2.1 (.assigned op (right.listed ++ t.text)) fun _ => by simp [Tail.assigned]
    rw [text_assignment]
    simpa [Tail.text_assigned] using this.of_mark (by simp [Tail.assigned])
  | .binary .., _, t, _ => by
    rw [text_binary]
    exact Lead.of_parens _ _ _
  | .unary .., _, t, _ => by
    rw [text_unary, List.append_assoc]
    exact .unary
  | .sequence _ [], h, _, _ => absurd h.1 (by simp)
  | .sequence _ [_], h, _, _ => absurd h.1 (by simp)
  | .sequence _ (first :: second :: rest), h, t, _ => by
    have := first.lead h.2.2.1 (t.behind ((second :: rest).map text)) fun _ => by
      simp [Tail.behind, Tail.closed]
    rw [text_sequence, List.map_cons, joined_cons]
    exact this.of_mark (by simp [Tail.behind, Tail.closed])
  | .update _ op true argument, h, t, _ => by
    have place := h.1
    have := lead_textIf (b := argument.isLoose) fun _ => argument.lead h.2 t fun ambiguous => by
      cases argument <;> simp_all [isAmbiguous, isLoose, IsPlace]
    obtain ⟨c, rest, e, other⟩ := this.first
    rw [text_updateLeading, List.append_assoc, e]
    exact .update (by simp_all)
  | .update _ op false argument, h, t, _ => by
    have := lead_textIf (b := argument.isLoose) fun _ => argument.lead h.2 (t.updated op) fun _ => by
      simp [Tail.updated]
    rw [text_update, List.append_assoc]
    exact this.of_mark (by simp [Tail.updated])
  | .function ⟨_, id, params, body⟩, _, t, _ => by
    rw [text_function, headText, List.append_assoc, List.append_assoc]
    exact .keyword (by decide) (by simp [Breaks, breakChars]) (by simp)
  | .call _ callee args, h, t, _ => by
    have := lead_textIf (b := callee.isAmbiguous) fun plain =>
      callee.lead h.1 (.called (joined (args.map listed) ++ .char ')' :: t.text)) (by simp [Takes, plain])
    rw [text_call]
    simpa [inParens, Tail.text_called] using this.of_mark (by simp [Tail.called])
  | .new _ callee args, h, t, _ => by
    rw [text_new, List.append_assoc]
    exact .keyword (by decide) (by simp [Breaks, breakChars]) (by simp)
  | .conditional _ test consequent alternate, h, t, _ => by
    have branch : Lead (.close .colon) (consequent.listed ++
        (Tail.closed .colon (.char ' ' :: (alternate.listed ++ t.text))).text) :=
      lead_textIf fun _ => consequent.lead h.2.1 (.closed .colon _) fun _ => by simp [Tail.closed]
    obtain ⟨c, rest, e, other⟩ := branch.first
    have := lead_textIf (b := test.isLoose) fun _ =>
      test.lead h.1 (.asked _ ⟨c, rest, e, by simp_all⟩) fun _ => by simp [Tail.asked]
    rw [text_conditional]
    simpa [Tail.text_asked, Tail.text_colon] using this.of_mark (by simp [Tail.asked])
  | .member _ o p .dot, h, t, _ => by
    cases p with
    | identifier id =>
      have name : IsName id.name.toList := h.2
      have := lead_textIf (b := o.isAmbiguous) fun plain =>
        o.lead h.1 (.dotted id name t.text) (by simp [Takes, plain])
      rw [text_dot]
      simpa [Tail.text_dotted] using this.of_mark (by simp [Tail.dotted])
    | _ => exact h.2.elim
  | .member _ o p .bracket, h, t, _ => by
    have := lead_textIf (b := o.isAmbiguous) fun plain =>
      o.lead h.1 (.indexed (p.text ++ .char ']' :: t.text)) (by simp [Takes, plain])
    rw [text_bracket]
    simpa [Tail.text_indexed] using this.of_mark (by simp [Tail.indexed])
  | .member _ _ _ (.other _), h, _, _ => h.2.elim
  | .object _ properties, _, t, _ => by
    rw [text_object]
    have : Lead t.mark (Symbol.ofString "\x7b" ++
        (joined (properties.map Property.text) ++ .char '\x7d' :: t.text)) := .bracket (by decide)
    simpa [Symbol.ofString] using this
  | .array _ elements, _, t, _ => by
    rw [text_array, List.cons_append]
    have : Lead t.mark (Symbol.ofString "[" ++ (joined (elements.map elementText) ++
        (if elements.getLast?.any Option.isNone then [.char ','] else []) ++ [Symbol.char ']'] ++ t.text)) :=
      .bracket (by decide)
    simpa only [Symbol.ofString, String.reduceToList, List.map_cons, List.map_nil, List.cons_append,
      List.nil_append] using this
  | .this _, _, t, _ => by
    rw [text_this]
    exact .keyword (by decide) t.breaks (by simp)
  | .identifier id, h, t, _ => .name h (.inl rfl)
  | .literal lit, h, t, takes => lead_literal h t takes
  | .unknown _, h, _, _ => h.elim

end Expr

end IndexedLoop
