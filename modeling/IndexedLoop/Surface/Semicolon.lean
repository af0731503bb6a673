import IndexedLoop.Surface.Lexical

/-!
# Inserted semicolons

A statement may end without a semicolon: at the end of the source, before a closing brace, and at a
line break unless the text behind it goes on with the statement. `insertsAt` decides it from the text
behind the last token. Only the blanks of the first 128 characters are looked through.
-/

namespace IndexedLoop.Semicolon

/-- The rest of a text from the end of the line. -/
def fromLineBreak : List Symbol → List Symbol
  | [] => []
  | s :: rest => if s.satisfies Lexical.isLineBreak then s :: rest else fromLineBreak rest

/-- The rest of a text behind a block comment whose start was read, and whether the comment holds a
line break. Nothing is left if the comment is never closed. -/
def behindBlock (broken : Bool) : List Symbol → Option (Bool × List Symbol)
  | [] => none
  | .char '*' :: .char '/' :: rest => some (broken, rest)
  | s :: rest => behindBlock (broken || s.satisfies Lexical.isLineBreak) rest

/-- How a look through blanks and comments ends. -/
inductive Skipped where
  /-- At a slash that starts no comment. -/
  | atSlash
  /-- Behind comments and blanks that may hold a line break. -/
  | passed (rest : List Symbol)
  /-- Behind block comments on one line. -/
  | sameLine (rest : List Symbol)
deriving Repr

/-- Looks through blanks and comments, at most one comment for each symbol of `fuel`. Unless `all` is
asked for, the look ends at the first block comment that no slash follows. -/
def skip (all broken : Bool) : (fuel : List Symbol) → List Symbol → Skipped
  | [], s => .passed s
  | _ :: fuel, s =>
    let s := s.drop (Lexical.runLength (·.satisfies Lexical.isAsciiBlank) s)
    match s with
    | .char '/' :: .char '/' :: rest => skip all broken fuel (fromLineBreak rest)
    | .char '/' :: .char '*' :: rest =>
      match behindBlock broken rest with
      | none => .passed []
      | some (broken, .char '/' :: rest) => skip all broken fuel (.char '/' :: rest)
      | some (broken, rest) =>
        if all then skip all broken fuel rest
        else if broken then .passed rest
        else .sameLine rest
    | .char '/' :: _ => .atSlash
    | s => .passed s

/-- The text starts with a letter of the first 128 characters. -/
def startsWithLetter (s : List Symbol) : Bool :=
  s.head?.any (·.satisfies Char.isAlpha)

/-- The text starts with this word, and no letter follows. -/
def startsWithWord (w : String) (s : List Symbol) : Bool :=
  Lexical.startsWith w.toList s && !startsWithLetter (s.drop w.length)

/-- The text behind a line break goes on with the statement. -/
def continues (s : List Symbol) : Bool :=
  match s with
  | .char '.' :: rest => !rest.head?.any (·.satisfies Char.isDigit)
  | .char '+' :: rest => !Lexical.startsWith ['+'] rest
  | .char '-' :: rest => !Lexical.startsWith ['-'] rest
  | .char '!' :: rest => Lexical.startsWith ['='] rest
  | .char 'i' :: _ => startsWithWord "in" s || startsWithWord "instanceof" s
  | .char c :: _ => "`,:;*%><=[(?^|&/".toList.contains c
  | _ => false

/-- The end of the scan at a line break: the statement ends unless the text goes on with it. -/
def endsAtBreak (s : List Symbol) : Bool :=
  match skip true false (.char ' ' :: s) s with
  | .atSlash => false
  | .passed rest | .sameLine rest => !continues rest

/-- One step of the scan, which `go` carries on. Behind a comment the end of the source is not seen. -/
def step (go : List Symbol → Bool) (s : List Symbol) : Bool :=
  match s with
  | [] => false
  | x :: rest =>
    if x = .char '\x7d' then true
    else if x.satisfies Lexical.isLineBreak then endsAtBreak rest
    else if x.satisfies Lexical.isAsciiBlank then go rest
    else false

/-- The scan from the end of a token, with at most one step for each symbol of `fuel`. -/
def scan (afterOperand : Bool) : (fuel : List Symbol) → List Symbol → Bool
  | [], _ => false
  | _ :: _, [] => true
  | _ :: fuel, .char '/' :: rest =>
    match skip false false (.char ' ' :: rest) (.char '/' :: rest) with
    | .atSlash => false
    | .sameLine tail => step (scan afterOperand fuel) tail
    | .passed tail =>
      if !afterOperand && !(Lexical.startsWith [','] tail || Lexical.startsWith ['='] tail) then true
      else step (scan afterOperand fuel) tail
  | _ :: fuel, s => step (scan afterOperand fuel) s

/-- A semicolon is inserted before this text. `afterOperand` says that an expression ends here and an
operator may follow; elsewhere a line comment ends the statement by itself. -/
def insertsAt (afterOperand : Bool) (s : List Symbol) : Bool :=
  scan afterOperand (.char ' ' :: s) s

/-! ## Conditionals -/

/-- The length of what a line starts with if it goes on with the statement and the next sign decides. -/
def leadLength (s : List Symbol) : Nat :=
  match s with
  | .char c :: _ =>
    if "/.+-".toList.contains c then 1
    else if startsWithWord "instanceof" s then 10
    else if startsWithWord "in" s then 2
    else 0
  | _ => 0

/-- The length of what the look for the end of a statement passes where it finds none: blanks, a slash
that starts no comment, and what the next line starts with. -/
def passedLength (s : List Symbol) : Nat :=
  let isGap (x : Symbol) : Bool :=
    x.satisfies Lexical.isAsciiBlank && !x.satisfies Lexical.isLineBreak
  let line := Lexical.runLength isGap s
  match s.drop line with
  | [] => line
  | x :: rest =>
    if x.isChar '/' then line + 1
    else if x.satisfies Lexical.isLineBreak then
      let gap := line + 1 + Lexical.runLength (·.satisfies Lexical.isAsciiBlank) rest
      gap + leadLength (s.drop gap)
    else line

/-- The length of what stands in front of the `?` of a conditional behind an operand. Where the statement
may end, the look for its end goes first, and what it passes belongs to no token. -/
def beforeQuestionMark? (mayEnd : Bool) (s : List Symbol) : Option Nat :=
  let gap :=
    if mayEnd then passedLength s else Lexical.runLength (·.satisfies Lexical.isAsciiBlank) s
  if Lexical.asksAt (s.drop gap) then some gap else none

end IndexedLoop.Semicolon
