import IndexedLoop.Text.Utf8

/-!
# Lexical classes

What counts as a blank, a line break, a comment, a word, a number, a string and a regular expression.
Each class is given by the number of symbols of its longest member at the start of a text, or by
nothing if there is none. A scan of a class whose pieces have different lengths keeps the number of
symbols that still belong to the piece before (`skip`), so every scan follows the text.
-/

namespace IndexedLoop.Lexical

/-- The blanks of the first 128 characters. -/
def isAsciiBlank (c : Char) : Bool :=
  c == ' ' || (9 ≤ c.toNat && c.toNat ≤ 13)

/-- The characters of the Unicode category of space separators. -/
def isSpaceSeparator (c : Char) : Bool :=
  let n := c.toNat
  n == 0x20 || n == 0xA0 || n == 0x1680 || (0x2000 ≤ n && n ≤ 0x200A) || n == 0x202F || n == 0x205F
    || n == 0x3000

/-- The two characters that separate lines and paragraphs. -/
def isSeparator (c : Char) : Bool :=
  c == '\u2028' || c == '\u2029'

/-- The characters between tokens: spaces, what ends a line, the byte order mark, and two characters of
no width. The control character for the next line is none. -/
def isBlank (c : Char) : Bool :=
  isAsciiBlank c || isSpaceSeparator c || isSeparator c || c == '\uFEFF' || c == '\u200B'
    || c == '\u2060'

/-- The characters that end a line. A carriage return alone does not. -/
def isLineBreak (c : Char) : Bool :=
  c == '\n' || isSeparator c

def isHexDigit (c : Char) : Bool :=
  c.isDigit || ('a' ≤ c && c ≤ 'f') || ('A' ≤ c && c ≤ 'F')

def isOctalDigit (c : Char) : Bool :=
  '0' ≤ c && c ≤ '7'

def isBinaryDigit (c : Char) : Bool :=
  c == '0' || c == '1'

/-- The text starts with these characters. -/
def startsWith : List Char → List Symbol → Bool
  | [], _ => true
  | c :: cs, .char d :: rest => c == d && startsWith cs rest
  | _ :: _, _ => false

/-- The number of symbols at the start of a text that satisfy a property. -/
def runLength (p : Symbol → Bool) : List Symbol → Nat
  | [] => 0
  | s :: rest => if p s then 1 + runLength p rest else 0

/-! ## Comments -/

/-- The rest of a line, without what ends it. -/
def restOfLine (s : List Symbol) : Nat :=
  runLength (fun x => !(x.satisfies isLineBreak || x.isChar '\r')) s

/-- The length of a text up to and with the first `*/`. -/
def blockCommentEnd? : List Symbol → Option Nat
  | [] => none
  | .char '*' :: .char '/' :: _ => some 2
  | _ :: rest => (blockCommentEnd? rest).map (1 + ·)

/-- The length of a comment. A block comment that is never closed is none. -/
def comment? : List Symbol → Option Nat
  | .char '/' :: .char '/' :: rest => some (2 + restOfLine rest)
  | .char '/' :: .char '*' :: rest => (blockCommentEnd? rest).map (2 + ·)
  | _ => none

/-- The length of a line that starts with `<!--` or `-->`, with the blanks before it. It is a comment
where no operand is complete and no statement may end. -/
def markupComment? (s : List Symbol) : Option Nat :=
  let blanks := runLength (·.satisfies fun c => isAsciiBlank c || isSeparator c) s
  let line := s.drop blanks
  if startsWith ['<', '!', '-', '-'] line || startsWith ['-', '-', '>'] line then
    some (blanks + runLength (fun x => !x.satisfies isLineBreak) line)
  else none

/-- The number of blanks at the start of a text. -/
def blanks (s : List Symbol) : Nat :=
  runLength (·.satisfies isBlank) s

/-- The length of the blanks at the start of a text and of a comment behind them. -/
def blanksAndComment? (s : List Symbol) : Option Nat :=
  (comment? (s.drop (blanks s))).map (blanks s + ·)

/-! ## Words -/

/-- The punctuation characters that no word holds. -/
def isPunctuation (c : Char) : Bool :=
  ":;`\"'@#.,|^&<=>+-*/\\%?!~()[]\x7b\x7d".toList.contains c

/-- The characters of a word. -/
def isWordChar (c : Char) : Bool :=
  !(c.toNat < 0x20 || isBlank c || isPunctuation c)

/-- The length of a run of at least one hexadecimal digit that a brace closes, with the brace. -/
def bracedHex? (s : List Symbol) : Option Nat :=
  let n := runLength (·.satisfies isHexDigit) s
  if 0 < n ∧ startsWith ['\x7d'] (s.drop n) then some (n + 1) else none

/-- The length of an escaped character behind `\u`. -/
def unicodeEscape? (s : List Symbol) : Option Nat :=
  if 4 ≤ (s.take 4).length ∧ (s.take 4).all (·.satisfies isHexDigit) then some 4
  else
    match s with
    | .char '\x7b' :: rest => (bracedHex? rest).map (1 + ·)
    | _ => none

/-- The length of the next piece of a word: a character, or an escaped one. -/
def wordPiece : List Symbol → Nat
  | .char '\\' :: .char 'u' :: rest => ((unicodeEscape? rest).map (2 + ·)).getD 0
  | .char c :: _ => if isWordChar c then 1 else 0
  | _ => 0

/-- The length of the word at the start of a text. -/
def wordFrom : (skip : Nat) → List Symbol → Nat
  | _, [] => 0
  | skip + 1, _ :: rest => 1 + wordFrom skip rest
  | 0, x :: rest =>
    match wordPiece (x :: rest) with
    | 0 => 0
    | n + 1 => 1 + wordFrom n rest

/-- The length of the word at the start of a text. No word starts with a digit. -/
def word (s : List Symbol) : Nat :=
  match s with
  | .char c :: _ => if c.isDigit then 0 else wordFrom 0 s
  | _ => 0

/-! ## Numbers -/

/-- The length of digits that go on, of which each may have a `_` in front. -/
def moreDigits (p : Char → Bool) : List Symbol → Nat
  | .char '_' :: .char d :: rest => if p d then 2 + moreDigits p rest else 0
  | .char d :: rest => if p d then 1 + moreDigits p rest else 0
  | _ => 0

/-- The length of digits with `_` between some of them. -/
def digitRun (p : Char → Bool) : List Symbol → Nat
  | .char d :: rest => if p d then 1 + moreDigits p rest else 0
  | _ => 0

/-- The length of an exponent. -/
def exponent (s : List Symbol) : Nat :=
  match s with
  | .char e :: rest =>
    if e ≠ 'e' ∧ e ≠ 'E' then 0
    else
      let sign := if startsWith ['+'] rest || startsWith ['-'] rest then 1 else 0
      match digitRun Char.isDigit (rest.drop sign) with
      | 0 => 0
      | n => 1 + sign + n
  | _ => 0

/-- The length of the whole part of a number with a fraction or an exponent: a zero, or digits of which
only the first may be a zero. -/
def wholePart : List Symbol → Nat
  | .char '0' :: .char d :: rest =>
    if d ≠ '0' ∧ d.isDigit then 1 + digitRun Char.isDigit (.char d :: rest) else 1
  | s => digitRun Char.isDigit s

/-- The length of a point, the digits behind it and an exponent, or of an exponent alone. -/
def fractionOrExponent (s : List Symbol) : Nat :=
  match s with
  | .char '.' :: rest =>
    let n := digitRun Char.isDigit rest
    1 + n + exponent (rest.drop n)
  | _ => exponent s

/-- The length of a decimal number that starts with a digit. -/
def decimal (s : List Symbol) : Nat :=
  let whole := wholePart s
  match fractionOrExponent (s.drop whole) with
  | 0 =>
    let n := digitRun Char.isDigit s
    if startsWith ['n'] (s.drop n) then n + 1 else n
  | n => whole + n

/-- The length of a number in another base, whose digits follow the first two symbols. -/
def radixNumber? (p : Char → Bool) (s : List Symbol) : Option Nat :=
  match digitRun p (s.drop 2) with
  | 0 => none
  | n => some (if startsWith ['n'] (s.drop (2 + n)) then n + 3 else n + 2)

/-- The length of the number at the start of a text. -/
def number (s : List Symbol) : Nat :=
  match s with
  | .char '.' :: rest =>
    match digitRun Char.isDigit rest with
    | 0 => 0
    | n => 1 + n + exponent (rest.drop n)
  | .char '0' :: .char b :: _ =>
    let radix? :=
      if b = 'x' ∨ b = 'X' then radixNumber? isHexDigit s
      else if b = 'o' ∨ b = 'O' then radixNumber? isOctalDigit s
      else if b = 'b' ∨ b = 'B' then radixNumber? isBinaryDigit s
      else none
    radix?.getD (decimal s)
  | .char d :: _ => if d.isDigit then decimal s else 0
  | _ => 0

/-! ## Strings, templates and regular expressions -/

/-- The length of an escape behind its backslash: a code in hexadecimal or octal digits, the end of a
line, which a carriage return or a `?` may precede, or any other single character. -/
def escape? : List Symbol → Option Nat
  | [] => none
  | .char 'x' :: rest =>
    if 2 ≤ (rest.take 2).length ∧ (rest.take 2).all (·.satisfies isHexDigit) then some 3 else none
  | .char 'u' :: rest => (unicodeEscape? rest).map (1 + ·)
  | .char d :: rest =>
    if isOctalDigit d then some (1 + runLength (·.satisfies isOctalDigit) (rest.take 2))
    else if (d == '\r' || d == '?') && rest.head?.any (·.satisfies isLineBreak) then some 2
    else some 1
  | .stray _ :: _ => some 1

/-- The length of the next piece of a string, or nothing if the string does not go on: a character, an
escape, or a comment in lines of its own. -/
def stringPiece? : List Symbol → Option Nat
  | [] => none
  | .char '\\' :: rest => (escape? rest).map (1 + ·)
  | x :: rest => if x = .char '\n' ∨ x = .char '\r' then blanksAndComment? (x :: rest) else some 1

/-- The length of the end of a string: the closing quote, and lines of blanks before it. -/
def stringEnd? (quote : Char) (s : List Symbol) : Option Nat :=
  let lines := if startsWith ['\n'] s || startsWith ['\r'] s then blanks s else 0
  if startsWith [quote] (s.drop lines) then some (lines + 1) else none

/-- The length of a string up to and with its closing quote. -/
def stringFrom (quote : Char) : (skip : Nat) → List Symbol → Option Nat
  | _, [] => none
  | skip + 1, _ :: rest => (stringFrom quote skip rest).map (1 + ·)
  | 0, x :: rest =>
    match stringEnd? quote (x :: rest), stringPiece? (x :: rest) with
    | some n, _ => some n
    | none, some (n + 1) => (stringFrom quote n rest).map (1 + ·)
    | none, _ => none

/-- The length of the string at the start of a text, with its quotes. -/
def string? : List Symbol → Option Nat
  | .char '"' :: rest => (stringFrom '"' 0 rest).map (1 + ·)
  | .char '\'' :: rest => (stringFrom '\'' 0 rest).map (1 + ·)
  | _ => none

/-- How a stretch of a template ends. -/
inductive TemplateEnd where
  /-- At the closing quote. -/
  | quote
  /-- At the start of a substitution. -/
  | substitution
deriving DecidableEq, Repr

/-- The length of a stretch of a template, with what ends it. -/
def templateFrom : (skip : Nat) → List Symbol → Option (Nat × TemplateEnd)
  | _, [] => none
  | skip + 1, _ :: rest => (templateFrom skip rest).map fun (n, e) => (1 + n, e)
  | 0, .char '`' :: _ => some (1, .quote)
  | 0, .char '$' :: .char '\x7b' :: _ => some (2, .substitution)
  | 0, .char '\\' :: rest =>
    match escape? rest with
    | none => none
    | some n => (templateFrom n rest).map fun (n, e) => (1 + n, e)
  | 0, _ :: rest => (templateFrom 0 rest).map fun (n, e) => (1 + n, e)

/-- The length of a class of a regular expression behind its opening bracket. -/
def regexClass? : (skip : Nat) → List Symbol → Option Nat
  | _, [] => none
  | skip + 1, x :: rest => if x = .char '\n' then none else (regexClass? skip rest).map (1 + ·)
  | 0, x :: rest =>
    if x = .char ']' then some 1
    else if x = .char '\n' then none
    else if x = .char '\\' then (regexClass? 1 rest).map (1 + ·)
    else (regexClass? 0 rest).map (1 + ·)

/-- The length of the next piece of a regular expression: a class, an escaped character, or any
character but a slash. No piece holds a line feed. -/
def regexPiece : List Symbol → Nat
  | [] => 0
  | .char '[' :: rest => ((regexClass? 0 rest).map (1 + ·)).getD 0
  | .char '\\' :: x :: _ => if x = .char '\n' then 0 else 2
  | x :: _ => if x = .char '\n' ∨ x = .char '/' ∨ x = .char '\\' then 0 else 1

/-- The length of the pieces of a regular expression. -/
def regexFrom : (skip : Nat) → List Symbol → Nat
  | _, [] => 0
  | skip + 1, _ :: rest => 1 + regexFrom skip rest
  | 0, x :: rest =>
    match regexPiece (x :: rest) with
    | 0 => 0
    | n + 1 => 1 + regexFrom n rest

/-- The length of the comments at the start of a text, each with the blanks before it. A comment counts
as long as it is longer than `other` at its place. -/
def commentsFrom (comment : List Symbol → Option Nat) (other : List Symbol → Nat) :
    (skip : Nat) → List Symbol → Nat
  | _, [] => 0
  | skip + 1, _ :: rest => 1 + commentsFrom comment other skip rest
  | 0, x :: rest =>
    match comment (x :: rest) with
    | some (n + 1) =>
      if other (x :: rest) < n + 1 then 1 + commentsFrom comment other n rest else 0
    | _ => 0

/-- The length of the flags of a regular expression. Flags that spell an operator are the operator. -/
def regexFlags (s : List Symbol) : Nat :=
  let n := runLength (·.satisfies fun c => 'a' ≤ c && c ≤ 'z') s
  let flags := s.take n
  if flags = Symbol.ofString "in" ∨ flags = Symbol.ofString "instanceof" then 0 else n

/-- The length of the regular expression at the start of a text, with its slashes and without its flags.
Comments may stand before its pieces, and in lines of their own behind them. -/
def regex? : List Symbol → Option Nat
  | .char '/' :: rest =>
    let lead := commentsFrom blanksAndComment? (regexFrom 0) 0 rest
    match regexFrom 0 (rest.drop lead) with
    | 0 => none
    | n =>
      let tail := rest.drop (lead + n)
      let comment (s : List Symbol) : Option Nat :=
        if startsWith ['/'] s then none else (markupComment? s).or (blanksAndComment? s)
      let gap := commentsFrom comment (fun _ => 0) 0 tail
      match tail.drop gap with
      | .char '/' :: _ => some (2 + lead + n + gap)
      | _ => none
  | _ => none

/-! ## Markup -/

/-- The length of a name with a hyphen, as elements and attributes of markup may have. -/
def hyphenated? (s : List Symbol) : Option Nat :=
  let isStart (c : Char) : Bool := c.isAlpha || c == '_' || c == '$'
  let isNext (c : Char) : Bool := isStart c || c.isDigit
  match s with
  | .char c :: _ =>
    let n := runLength (·.satisfies isNext) s
    let tail := s.drop n
    if isStart c && startsWith ['-'] tail then
      some (n + runLength (·.satisfies fun c => isNext c || c == '-') tail)
    else none
  | _ => none

/-- The length of the name or the number of a character reference. -/
def referenceName (s : List Symbol) : Nat :=
  let atMost (limit : Nat) (n : Nat) : Nat := if n ≤ limit then n else 0
  match s with
  | .char '#' :: .char x :: rest =>
    if x = 'x' ∨ x = 'X' then
      match atMost 6 (runLength (·.satisfies isHexDigit) rest) with
      | 0 => 0
      | n => n + 2
    else
      match atMost 5 (runLength (·.satisfies Char.isDigit) (.char x :: rest)) with
      | 0 => 0
      | n => n + 1
  | _ => atMost 30 (runLength (·.satisfies Char.isAlpha) s)

/-- The length of a character reference, from `&` to `;`. -/
def reference? : List Symbol → Option Nat
  | .char '&' :: rest =>
    match referenceName rest with
    | 0 => none
    | n => if startsWith [';'] (rest.drop n) then some (n + 2) else none
  | _ => none

/-- The length of a stretch of an attribute's string: no quote, and `&` only where no reference can
start. -/
def attributeText (quote : Char) : List Symbol → Nat
  | .char '&' :: x :: rest =>
    if x.isChar '#' || x.satisfies Char.isAlpha then 0 else 2 + attributeText quote rest
  | x :: rest => if x.isChar quote || x.isChar '&' then 0 else 1 + attributeText quote rest
  | [] => 0

/-- The length of the text at the start of the content of an element, and whether it is more than line
breaks and the blanks behind them. -/
def contentFrom (atBreak found : Bool) : List Symbol → Nat × Bool
  | [] => (0, found)
  | x :: rest =>
    if x.satisfies (fun c => "<>&\x7b\x7d".toList.contains c) then (0, found)
    else
      let atBreak := x.isChar '\n' || (atBreak && x.satisfies isAsciiBlank)
      let (n, found) := contentFrom atBreak (found || !atBreak) rest
      (n + 1, found)

/-- The length of the text at the start of the content of an element, where line breaks and the blanks
behind them are no text by themselves. -/
def content (s : List Symbol) : Nat :=
  match contentFrom false false s with
  | (n, true) => n
  | (_, false) => 0

/-! ## Punctuation -/

/-- The punctuation tokens, longer ones before those they start with. The `?` of a conditional is read
by itself. -/
def punctuators : List String :=
  [">>>=", "...", "===", "!==", "**=", "<<=", ">>=", ">>>", "&&=", "||=", "??=", "=>", "==", "!=",
   "<=", ">=", "&&", "||", "??", "?.", "++", "--", "+=", "-=", "*=", "/=", "%=", "&=", "|=", "^=",
   "<<", ">>", "**", "\x7b", "\x7d", "(", ")", "[", "]", ";", ",", "<", ">", "+", "-", "*", "/",
   "%", "&", "|", "^", "!", "~", ":", "=", ".", "`", "@"]

/-- The punctuation token at the start of a text. -/
def punctuator? (s : List Symbol) : Option String :=
  punctuators.find? fun p => startsWith p.toList s

/-- The text starts with the `?` of a conditional. A second `?`, or a point without a digit behind it,
makes it another token. -/
def asksAt : List Symbol → Bool
  | .char '?' :: .char '?' :: _ => false
  | .char '?' :: .char '.' :: rest => rest.head?.any (·.satisfies Char.isDigit)
  | .char '?' :: _ => true
  | _ => false

/-- The length of `static get` up to and with the last line break behind it, which is one token. -/
def staticGet? (s : List Symbol) : Option Nat :=
  if startsWith "static".toList s then
    let gap := runLength (·.satisfies isAsciiBlank) (s.drop 6)
    let word := s.drop (6 + gap)
    if 0 < gap ∧ startsWith "get".toList word then
      let behind := (word.drop 3).take (runLength (·.satisfies isAsciiBlank) (word.drop 3))
      let tail := runLength (fun x => !x.isChar '\n') behind.reverse
      if tail < behind.length then some (9 + gap + (behind.length - tail)) else none
    else none
  else none

end IndexedLoop.Lexical
