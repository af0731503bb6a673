import IndexedLoop.Number.Binary64

/-!
# Number literals

`NumberLiteral.read?` gives the number of a literal. Digits may be separated by `_`. A literal that
starts with `0x`, `0o` or `0b`, or with a zero and has octal digits only, is a whole number below
`2 ^ 128`; any other literal is a decimal with an optional fraction and exponent. Both are rounded to
the nearest number. A decimal may have a sign, and `inf`, `infinity` and `nan` are read in any case.
-/

namespace IndexedLoop.NumberLiteral

/-- The value of a digit in a base of at most sixteen. -/
def digit? (base : Nat) (c : Char) : Option Nat :=
  let value? :=
    if '0' ≤ c ∧ c ≤ '9' then some (c.toNat - '0'.toNat)
    else if 'a' ≤ c ∧ c ≤ 'f' then some (c.toNat - 'a'.toNat + 10)
    else if 'A' ≤ c ∧ c ≤ 'F' then some (c.toNat - 'A'.toNat + 10)
    else none
  value?.filter (· < base)

/-- The natural number that digits in a base denote after `value`. -/
def digitsFrom? (base : Nat) : Nat → List Char → Option Nat
  | value, [] => some value
  | value, c :: rest => do digitsFrom? base (value * base + (← digit? base c)) rest

/-- The natural number that one or more digits in a base denote; a `+` may stand in front. -/
def whole? (base : Nat) : List Char → Option Nat
  | [] => none
  | '+' :: [] => none
  | '+' :: rest => digitsFrom? base 0 rest
  | digits => digitsFrom? base 0 digits

/-- The number of a whole literal. It has to be below `2 ^ 128`. -/
def radix? (base : Nat) (digits : List Char) : Option Binary64 := do
  let value ← whole? base digits
  if value < Nat.pow 2 128 then some (Binary64.ofNat value) else none

/-- The number nearest to `digits * 10 ^ exponent`. A number with more than `310` digits in front of
the point is infinite, and one that starts more than `330` places behind it is zero. -/
def ofScientific (negative : Bool) (digits : Nat) (exponent : Int) : Binary64 :=
  let size : Int := (Nat.toDigits 10 digits).length + exponent
  if digits = 0 ∨ size < -330 then Binary64.zero negative
  else if 310 < size then Binary64.infinity negative
  else
    match exponent with
    | .ofNat k => Binary64.ofRatio negative (digits * Nat.pow 10 k) 1
    | .negSucc k => Binary64.ofRatio negative digits (Nat.pow 10 (k + 1))

/-- An exponent mark with a whole exponent and nothing behind it, or nothing at all. -/
def exponent? : List Char → Option Int
  | [] => some 0
  | mark :: rest =>
    if mark ≠ 'e' ∧ mark ≠ 'E' then none
    else
      let (negative, digits) :=
        match rest with
        | '+' :: rest => (false, rest)
        | '-' :: rest => (true, rest)
        | rest => (false, rest)
      if digits.isEmpty then none
      else (digitsFrom? 10 0 digits).map fun n => if negative then -(n : Int) else n

/-- The number of an unsigned decimal: digits, of which a point may follow or precede some, and an
optional exponent. -/
def decimal? (negative : Bool) (text : List Char) : Option Binary64 := do
  let whole := text.takeWhile Char.isDigit
  let rest := text.dropWhile Char.isDigit
  let (fraction, tail) :=
    match rest with
    | '.' :: rest => (rest.takeWhile Char.isDigit, rest.dropWhile Char.isDigit)
    | rest => ([], rest)
  if whole.isEmpty && fraction.isEmpty then none
  else
    let exponent ← exponent? tail
    let digits ← digitsFrom? 10 0 (whole ++ fraction)
    some (ofScientific negative digits (exponent - fraction.length))

/-- The number of a decimal with an optional sign, or of one of the words for infinity and for no
number. -/
def signed? (text : List Char) : Option Binary64 :=
  let (negative, rest) :=
    match text with
    | '+' :: rest => (false, rest)
    | '-' :: rest => (true, rest)
    | rest => (false, rest)
  let lower := String.ofList (rest.map Char.toLower)
  if lower = "inf" ∨ lower = "infinity" then some (Binary64.infinity negative)
  else if lower = "nan" then some (Binary64.nan negative)
  else decimal? negative rest

/-- The number of a literal. -/
def read? (text : String) : Option Binary64 :=
  match text.toList.filter (· ≠ '_') with
  | '0' :: 'x' :: digits | '0' :: 'X' :: digits => radix? 16 digits
  | '0' :: 'o' :: digits | '0' :: 'O' :: digits => radix? 8 digits
  | '0' :: 'b' :: digits | '0' :: 'B' :: digits => radix? 2 digits
  | '0' :: d :: digits =>
    if (d :: digits).all fun c => '0' ≤ c && c ≤ '7' then radix? 8 (d :: digits)
    else signed? ('0' :: d :: digits)
  | decimal => signed? decimal

end IndexedLoop.NumberLiteral
