import IndexedLoop.Surface.Cursor
import IndexedLoop.Surface.Semicolon

/-!
# Tokens

`Token.read` takes the longest token at the start of a text. `Cursor.lexeme` finds the next token of a
cursor: its slot says whether a semicolon may be inserted, whether `?` asks for a conditional, and
whether a line of markup is a comment. Blanks and comments are skipped. Whether a slash divides or starts
a regular expression, and whether a backquote opens or closes a template, depends on the place, so both
are left to the grammar, which reads on from the token's start.
-/

namespace IndexedLoop

/-- A token. -/
inductive Token where
  | word (text : String)
  /-- A word behind `#`. -/
  | privateName
  | number (text : List Symbol)
  | string (text : List Symbol)
  | punct (text : String)
  /-- A semicolon that is not written. -/
  | inserted
  /-- The end of the source. -/
  | finish
  /-- Text that no token starts with. -/
  | unreadable
deriving DecidableEq, Inhabited, Repr

namespace Token

/-- The characters of a text as a string. Words hold characters only. -/
def textOf (s : List Symbol) : String :=
  String.ofList (s.filterMap Symbol.char?)

/-- The operator that is a word and starts a text, whatever follows it. -/
def wordOperator? (s : List Symbol) : Option String :=
  ["instanceof", "in"].find? fun w => Lexical.startsWith w.toList s

/-- The token at the start of a text, with its length. Where no word may follow, an operator that is a
word needs no blank behind it. -/
def read (slot : Slot) (s : List Symbol) : Token × Nat :=
  match s with
  | [] => (.finish, 0)
  | .char '#' :: rest =>
    match Lexical.word rest with
    | 0 => (.unreadable, 0)
    | n => (.privateName, n + 1)
  | _ =>
    match if slot.words then none else wordOperator? s with
    | some w => (.word w, w.length)
    | none =>
      match Lexical.word s with
      | n + 1 => (.word (textOf (s.take (n + 1))), n + 1)
      | 0 =>
        match Lexical.number s with
        | n + 1 => (.number (s.take (n + 1)), n + 1)
        | 0 =>
          match Lexical.string? s with
          | some n => (.string (s.take n), n)
          | none =>
            match Lexical.punctuator? s with
            | some p => (.punct p, p.length)
            | none => (.unreadable, 0)

/-- Words that start an expression wherever an expression may start. -/
def operandKeywords : List String :=
  ["function", "class", "new", "typeof", "void", "delete", "this", "super", "true", "false", "null",
   "undefined", "await", "yield", "import"]

/-- Other words that start a statement wherever a statement may start. -/
def statementKeywords : List String :=
  ["var", "const", "if", "for", "while", "do", "switch", "try", "with", "return", "throw", "break",
   "continue", "debugger"]

/-- The token is a word that no name can be where a statement may start. -/
def isStatementKeyword : Token → Bool
  | .word w => operandKeywords.contains w || statementKeywords.contains w
  | _ => false

/-- The key of a property may start with this token. -/
def startsKey : Token → Bool
  | .word _ | .privateName | .number _ | .string _ => true
  | .punct p => p == "["
  | _ => false

/-- The token is an operator that is a word. -/
def isWordOperator (t : Token) : Bool :=
  t == .word "in" || t == .word "instanceof"

/-- An expression may start with this token behind a complete operand. -/
def startsExpr : Token → Bool
  | .word w => !isWordOperator (.word w)
  | .number _ | .string _ | .privateName => true
  | .punct p =>
    ["(", "[", "\x7b", "`", "/", "/=", "+", "-", "!", "~", "++", "--", "<", "@"].contains p
  | _ => false

/-- An expression may end in front of this token. -/
def endsExpr : Token → Bool
  | .inserted | .finish => true
  | .punct p => [")", "]", "\x7d", ",", ";", ":", "?"].contains p
  | _ => false

/-- The token can only go on with an operand before it: no statement starts with it. With `alone` no
statement may follow, so signs that could start one go on with the operand too. -/
def continuesOperand (alone : Bool) : Token → Bool
  | .punct p =>
    ["*", ",", ">", ".", "?.", "&&", "||", "??", ">>", ">>>", "<<", "&", "^", "|", "%", "**", "<=",
     "==", "===", "!=", "!==", ">=", "?"].contains p
      || (alone && ["+", "-", "/", "<", "(", "[", "`", "++", "--", ";"].contains p)
  | t => t.isWordOperator

end Token

/-- A token at its place. -/
structure Lexeme where
  token : Token
  /-- Where the token starts. -/
  start : Cursor
  /-- Behind the token. -/
  stop : Cursor
deriving Inhabited

namespace Lexeme

def extent (l : Lexeme) : Extent := ⟨l.start.place, l.stop.place⟩

def isPunct (l : Lexeme) (p : String) : Bool := l.token == .punct p

def isWord (l : Lexeme) (w : String) : Bool := l.token == .word w

end Lexeme

namespace Cursor

/-- The next token, with at most one comment skipped for each symbol of `fuel`. A semicolon that is
inserted goes before all else. -/
def lexemeIn : (fuel : List Symbol) → Cursor → Lexeme
  | [], c => ⟨.unreadable, c, c⟩
  | _ :: fuel, c =>
    let slot := c.slot
    if slot.ends && Semicolon.insertsAt slot.joins c.rest then ⟨.inserted, c, c⟩
    else
      match if slot.joins then Semicolon.beforeQuestionMark? slot.ends c.rest else none with
      | some n =>
        let start := c.advance n
        ⟨.punct "?", start, start.advance 1⟩
      | none =>
        let markup? := if slot.ends || slot.joins then none else Lexical.markupComment? c.rest
        match markup?.or (Lexical.blanksAndComment? c.rest) with
        | some n => lexemeIn fuel (c.advance n)
        | none =>
          let start := c.advance (Lexical.blanks c.rest)
          let (token, n) := Token.read slot start.rest
          ⟨token, start, start.advance n⟩

/-- The next token. -/
def lexeme (c : Cursor) : Lexeme :=
  lexemeIn (.char ' ' :: c.rest) c

end Cursor

namespace Lexeme

/-- The token behind this one, where the slot between them is given. -/
def next (l : Lexeme) (slot : Slot) : Lexeme :=
  (l.stop.facing slot).lexeme

end Lexeme

end IndexedLoop
