import IndexedLoop.Proofs.RoundTrip.Calm

/-!
# What stands behind an operand

A `Tail` is the text behind an operand: a `Mark` and what follows it. Whatever the slot, the mark is what
is seen there (`Tail.view_of`), with two exceptions: the question mark of a conditional is seen only where
an operand is complete, and a closing brace only where no statement may end.
-/

namespace IndexedLoop

open Lexical

/-- The tokens that end an expression. -/
inductive Closer where
  | comma | semicolon | paren | bracket | brace | colon
deriving DecidableEq, Repr

namespace Closer

def sign : Closer → String
  | .comma => ","
  | .semicolon => ";"
  | .paren => ")"
  | .bracket => "]"
  | .brace => "\x7d"
  | .colon => ":"

end Closer

/-- The tokens that stand behind an operand. -/
inductive Mark where
  | dot
  | bracket
  | paren
  | ask
  | update (op : UpdateOp)
  | binary (op : BinaryOp)
  | assign (op : AssignOp)
  | close (c : Closer)
deriving DecidableEq, Repr

namespace Mark

/-- The way a mark is written. -/
def sign : Mark → String
  | .dot => "."
  | .bracket => "["
  | .paren => "("
  | .ask => "?"
  | .update op => op.token
  | .binary op => op.token
  | .assign op => op.token
  | .close c => c.sign

/-- Operators between operands, and the colon of a conditional, have a space in front. -/
def gap : Mark → List Symbol
  | .binary _ | .assign _ | .close .colon => [.char ' ']
  | _ => []

/-- The token of a mark. -/
def token : Mark → Token
  | .binary .isIn => .word "in"
  | .binary .instanceOf => .word "instanceof"
  | m => .punct m.sign

/-- Every mark. -/
def all : List Mark :=
  [.dot, .bracket, .paren, .ask] ++ UpdateOp.all.map Mark.update ++ BinaryOp.all.map Mark.binary ++
    AssignOp.all.map Mark.assign ++ [Closer.comma, .semicolon, .paren, .bracket, .brace, .colon].map Mark.close

theorem mem_all (m : Mark) : m ∈ all := by
  cases m with
  | update op => cases op <;> decide
  | binary op => cases op <;> decide
  | assign op => cases op <;> decide
  | close c => cases c <;> decide
  | _ => decide

/-- The text behind a mark does not change what the mark is. -/
def Fits : Mark → List Symbol → Prop
  | .dot, s => ∃ c rest, s = .char c :: rest ∧ c.isDigit = false ∧ c ∉ ['.', '?']
  | .ask, s => ∃ c rest, s = .char c :: rest ∧ c ∉ ['.', '?']
  | .update _, s => ∃ c rest, s = .char c :: rest ∧ c ≠ '>'
  | .binary _, s | .assign _, s => ∃ rest, s = .char ' ' :: rest
  | _, _ => True

end Mark

/-- The text behind an operand: a mark, and what follows it. -/
structure Tail where
  mark : Mark
  rest : List Symbol
  fits : mark.Fits rest

namespace Tail

/-- The text from the mark on. -/
def body (t : Tail) : List Symbol := Symbol.ofString t.mark.sign ++ t.rest

/-- The whole text behind the operand. -/
def text (t : Tail) : List Symbol := t.mark.gap ++ t.body

/-- What is seen of the text. -/
def view (t : Tail) : View := ⟨t.mark.token, t.body, t.rest⟩

theorem drop_body (t : Tail) : t.body.drop t.mark.sign.length = t.rest := by
  have : t.mark.sign.length = (Symbol.ofString t.mark.sign).length := by simp [String.length]
  rw [body, this, List.drop_left]

end Tail

namespace Mark

theorem calm {m : Mark} {rest : List Symbol} (fits : m.Fits rest) (ask : m ≠ .ask)
    (brace : m ≠ .close .brace) : Calm (Symbol.ofString m.sign ++ rest) := by
  cases m with
  | dot =>
    obtain ⟨c, more, rfl, -, other⟩ := fits
    simp only [List.mem_cons, List.not_mem_nil, or_false, not_or] at other
    exact Calm.of_point other.2 more
  | bracket => exact Calm.of_char (c := '[') (by decide) (by decide) rest
  | paren => exact Calm.of_char (c := '(') (by decide) (by decide) rest
  | ask => exact absurd rfl ask
  | update op =>
    obtain ⟨c, more, rfl, other⟩ := fits
    exact Calm.of_update op other more
  | binary op =>
    obtain ⟨more, rfl⟩ := fits
    exact Calm.of_binary op more
  | assign op =>
    obtain ⟨more, rfl⟩ := fits
    exact Calm.of_assign op more
  | close c =>
    cases c with
    | brace => exact absurd rfl brace
    | comma => exact Calm.of_char (c := ',') (by decide) (by decide) rest
    | semicolon => exact Calm.of_char (c := ';') (by decide) (by decide) rest
    | paren => exact Calm.of_char (c := ')') (by decide) (by decide) rest
    | bracket => exact Calm.of_char (c := ']') (by decide) (by decide) rest
    | colon => exact Calm.of_char (c := ':') (by decide) (by decide) rest

/-- An operator that is a word is read with and without a place for words. -/
theorem read_wordOperator (slot : Slot) {w : String} (hw : w = "in" ∨ w = "instanceof")
    (rest : List Symbol) :
    Token.read slot (Symbol.ofString w ++ .char ' ' :: rest) = (.word w, w.length) := by
  have name : IsName w.toList := by
    rcases hw with rfl | rfl <;> exact .of_chars (by decide)
  cases words : slot.words with
  | true =>
    have := Token.read_name words name (show wordPiece (.char ' ' :: rest) = 0 from rfl)
    rwa [String.ofList_toList] at this
  | false =>
    rcases hw with rfl | rfl <;> simp [Token.read, words, Token.wordOperator?, Symbol.ofString, startsWith]

theorem read_point {slot : Slot} {c : Char} (digit : c.isDigit = false) (point : c ≠ '.')
    (rest : List Symbol) : Token.read slot (Symbol.ofString "." ++ .char c :: rest) = (.punct ".", 1) := by
  refine Token.read_punct slot (by decide) (punctuator?_of_not_longer (by decide) fun q hq longer ne => ?_) ?_
  · have : q = "..." := by
      have : ∀ q ∈ punctuators, ".".toList <+: q.toList → q ≠ "." → q = "..." := by decide
      exact this q hq longer ne
    subst this
    simp [Symbol.ofString, startsWith, Ne.symm point]
  · rintro - x hx
    cases hx
    exact digit

/-- A mark is read where it stands. -/
theorem read {m : Mark} {rest : List Symbol} (fits : m.Fits rest) (slot : Slot) (ask : m ≠ .ask) :
    Token.read slot (Symbol.ofString m.sign ++ rest) = (m.token, m.sign.length) := by
  have solitary (p : String) (hp : isSolitary p = true) (h : p ≠ ".") :
      Token.read slot (Symbol.ofString p ++ rest) = (.punct p, p.length) := by
    refine Token.read_punct slot ?_ (punctuator?_solitary hp rest) (fun e => absurd e h)
    simp only [isSolitary, Bool.and_eq_true, List.contains_iff_mem] at hp
    exact hp.1
  have blank (p : String) (hp : p ∈ punctuators) (h : p ≠ ".") (more : List Symbol) :
      Token.read slot (Symbol.ofString p ++ .char ' ' :: more) = (.punct p, p.length) :=
    Token.read_punct slot hp (punctuator?_blank hp more) (fun e => absurd e h)
  cases m with
  | dot =>
    obtain ⟨c, more, rfl, digit, other⟩ := fits
    simp only [List.mem_cons, List.not_mem_nil, or_false, not_or] at other
    exact read_point digit other.1 more
  | bracket => exact solitary "[" (by decide) (by decide)
  | paren => exact solitary "(" (by decide) (by decide)
  | ask => exact absurd rfl ask
  | update op => cases op <;> exact solitary _ (by decide) (by decide)
  | binary op =>
    obtain ⟨more, rfl⟩ := fits
    cases op
    case isIn => exact read_wordOperator slot (.inl rfl) more
    case instanceOf => exact read_wordOperator slot (.inr rfl) more
    all_goals exact blank _ (by decide) (by decide) more
  | assign op =>
    obtain ⟨more, rfl⟩ := fits
    cases op <;> exact blank _ (by decide) (by decide) more
  | close c => cases c <;> exact solitary _ (by decide) (by decide)

end Mark

theorem asksAt_mark {c : Char} (other : c ∉ ['.', '?']) (rest : List Symbol) :
    asksAt (.char '?' :: .char c :: rest) = true := by
  simp only [List.mem_cons, List.not_mem_nil, or_false, not_or] at other
  unfold asksAt
  split
  · rename_i e
    cases e
    exact absurd rfl other.2
  · rename_i e
    cases e
    exact absurd rfl other.1
  · rfl
  · rename_i e
    exact absurd rfl (e _)

namespace View

/-- A closing brace is seen where no statement may end. -/
theorem of_brace {slot : Slot} (ends : slot.ends = false) (rest : List Symbol) :
    View.of slot (.char '\x7d' :: rest) = ⟨.punct "\x7d", .char '\x7d' :: rest, rest⟩ := by
  have read : Token.read slot (.char '\x7d' :: rest) = (.punct "\x7d", 1) :=
    Mark.read (m := .close .brace) trivial slot (by decide)
  have := View.of_eq slot (s := .char '\x7d' :: rest) (fun e => absurd e (by simp [ends]))
    (fun _ => by rw [ends]; rfl) (fun _ _ => rfl) rfl
  rw [this]
  show View.mk (Token.read slot (.char '\x7d' :: rest)).1 (.char '\x7d' :: rest)
    ((Symbol.char '\x7d' :: rest).drop (Token.read slot (.char '\x7d' :: rest)).2) = _
  rw [read]
  rfl

/-- The question mark of a conditional is seen behind an operand. -/
theorem of_ask {slot : Slot} (joins : slot.joins = true) {c : Char} (other : c ∉ ['.', '?'])
    (rest : List Symbol) : View.of slot (.char '?' :: .char c :: rest) =
      ⟨.punct "?", .char '?' :: .char c :: rest, .char c :: rest⟩ := by
  have asks := asksAt_mark other rest
  have before (ends : Bool) :
      Semicolon.beforeQuestionMark? ends (.char '?' :: .char c :: rest) = some 0 := by
    cases ends <;> exact if_pos asks
  have inserts (operand : Bool) : Semicolon.insertsAt operand (.char '?' :: .char c :: rest) = false := rfl
  simp [View.of, Cursor.lexeme, Cursor.lexemeIn, Lexeme.view, joins, before, inserts]

/-- Where no operand is complete the question mark is no token. -/
theorem of_ask_plain {c : Char} (other : c ∉ ['.', '?']) (rest : List Symbol) :
    (View.of .plain (.char '?' :: .char c :: rest)).token = .unreadable := by
  simp only [List.mem_cons, List.not_mem_nil, or_false, not_or] at other
  have none : punctuator? (.char '?' :: .char c :: rest) = none := by
    simp [punctuator?, punctuators, startsWith, Ne.symm other.1, Ne.symm other.2]
  have read : Token.read .plain (.char '?' :: .char c :: rest) = (.unreadable, 0) := by
    rw [Token.read_other (by decide) (Token.word_eq_zero (by decide) (by decide) _),
      Token.number_eq_zero (by decide) (by decide), Token.string?_eq_none (by decide), none]
  have := View.of_eq .plain (s := .char '?' :: .char c :: rest) (fun e => by cases e)
    (fun e => by cases e) (fun _ _ => rfl) rfl
  rw [this]
  show (Token.read .plain (.char '?' :: .char c :: rest)).1 = _
  rw [read]

end View

namespace Tail

/-- Behind an operand the mark is seen, a closing brace only where no statement may end. -/
theorem view_of (t : Tail) (slot : Slot) (ask : t.mark = .ask → slot.joins = true)
    (brace : t.mark = .close .brace → slot.ends = false) : View.of slot t.text = t.view := by
  rcases t with ⟨m, rest, fits⟩
  by_cases hask : m = .ask
  · subst hask
    obtain ⟨c, more, rfl, other⟩ := fits
    simpa [text, body, view, Mark.gap, Mark.sign, Mark.token, Symbol.ofString] using
      View.of_ask (ask rfl) other more
  by_cases hbrace : m = .close .brace
  · subst hbrace
    simpa [text, body, view, Mark.gap, Mark.sign, Mark.token, Closer.sign, Symbol.ofString] using
      View.of_brace (brace rfl) rest
  have calm := Mark.calm fits hask hbrace
  have body : View.of slot (Symbol.ofString m.sign ++ rest) = ⟨m.token, Symbol.ofString m.sign ++ rest, rest⟩ := by
    have drop := drop_body ⟨m, rest, fits⟩
    simp only [Tail.body] at drop
    rw [calm.view, Mark.read fits slot hask]
    simp only [drop]
  simp only [text, Tail.body, view]
  cases m with
  | binary op => exact (calm.view_space slot).trans body
  | assign op => exact (calm.view_space slot).trans body
  | close c =>
    cases c with
    | colon => exact (calm.view_space slot).trans body
    | comma => exact body
    | semicolon => exact body
    | paren => exact body
    | bracket => exact body
    | brace => exact body
  | dot => exact body
  | bracket => exact body
  | paren => exact body
  | ask => exact body
  | update op => exact body

/-- Where no operand is complete, no question mark is seen, and any other mark. -/
theorem view_plain (t : Tail) : (View.of .plain t.text).token =
    if t.mark = .ask then .unreadable else t.mark.token := by
  split
  · rename_i ask
    rcases t with ⟨m, rest, fits⟩
    subst ask
    obtain ⟨c, more, rfl, other⟩ := fits
    simpa [text, body, Mark.gap, Mark.sign, Symbol.ofString] using View.of_ask_plain other more
  · rename_i ask
    rw [t.view_of _ (fun e => absurd e ask) (fun _ => rfl)]
    rfl

/-- No comment starts in front of a mark. -/
theorem comment_eq (t : Tail) : blanksAndComment? t.text = none := by
  have body : blanksAndComment? t.body = none := by
    rcases t with ⟨m, rest, fits⟩
    by_cases ask : m = .ask
    · subst ask
      simpa [body, Mark.sign, Symbol.ofString] using
        blanksAndComment?_char (c := '?') (by decide) (by decide) rest
    by_cases brace : m = .close .brace
    · subst brace
      simpa [body, Mark.sign, Closer.sign, Symbol.ofString] using
        blanksAndComment?_char (c := '\x7d') (by decide) (by decide) rest
    · exact (Mark.calm fits ask brace).blanksAndComment_eq
  have gap : ∀ m ∈ Mark.all, m.gap = [] ∨ m.gap = [.char ' '] := by decide
  rcases gap t.mark t.mark.mem_all with gap | gap
  · rw [text, gap]
    exact body
  · rw [text, gap, List.cons_append, blanksAndComment?_blank (by decide), List.nil_append, body]
    rfl

/-- Names and numbers end in front of a mark. -/
theorem breaks (t : Tail) : Breaks t.text := by
  rcases t with ⟨m, rest, fits⟩
  have sign : ∀ c ∈ (m.gap ++ Symbol.ofString m.sign).head?, ∃ d ∈ breakChars, c = .char d := by
    cases m with
    | update op => cases op <;> simp [Mark.gap, Mark.sign, UpdateOp.token, Symbol.ofString, breakChars]
    | close c => cases c <;> simp [Mark.gap, Mark.sign, Closer.sign, Symbol.ofString, breakChars]
    | _ => simp [Mark.gap, Mark.sign, Symbol.ofString, breakChars]
  have some : m.gap ++ Symbol.ofString m.sign ≠ [] := by
    cases m with
    | update op => cases op <;> simp [Mark.gap, Mark.sign, UpdateOp.token, Symbol.ofString]
    | close c => cases c <;> simp [Mark.gap, Mark.sign, Closer.sign, Symbol.ofString]
    | _ => simp [Mark.gap, Mark.sign, Symbol.ofString]
  intro x hx
  refine sign x ?_
  simpa only [text, body, ← List.append_assoc, List.head?_append_of_ne_nil _ some] using hx

end Tail

end IndexedLoop
