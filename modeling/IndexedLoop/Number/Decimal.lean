import IndexedLoop.Number.Binary64

/-!
# Numbers in decimal

`Decimal.shortest` gives the decimal with the fewest digits that reads back as a given number, and of
those the nearest one. The decimals with `n` digits form a grid, and if a point of the grid reads back
then so does one of the two grid points next to the number; so it is enough to look at these two on
ever finer grids. What is left to a format is in a `NumberStyle`: which way an exact tie goes, which
numbers are written without an exponent, and the words for what is not finite.
-/

namespace IndexedLoop

/-- The number `digits * 10 ^ exponent`. -/
structure Decimal where
  digits : Nat
  exponent : Int
deriving DecidableEq, Repr

/-- Which of two equally near decimals is taken. -/
inductive Tie where
  | up
  | toEven
deriving DecidableEq, Repr

/-- How numbers are written. -/
structure NumberStyle where
  tie : Tie
  /-- The decimal exponents of the numbers that are written without an exponent. -/
  positional : Int → Bool
  /-- A whole number is written with a fraction `.0`. -/
  wholeFraction : Bool
  infinity : String
  nan : String

namespace Decimal

/-- The number of digits of a natural number; zero has one. -/
def digitCount (n : Nat) : Nat := (Nat.toDigits 10 n).length

/-- The exponent of the largest power of ten that is at most `u / 2 ^ 1074`, for a positive `u`. -/
def leadingExponent (u : Nat) : Int :=
  if Binary64.unitsOfOne ≤ u then
    (digitCount (u / Binary64.unitsOfOne) : Int) - 1
  else
    -(digitCount ((Binary64.unitsOfOne + u - 1) / u - 1) : Int)

/-- A fraction with the value `n * 10 ^ e`. -/
def scaled (n : Nat) (e : Int) : Nat × Nat :=
  match e with
  | .ofNat k => (n * Nat.pow 10 k, 1)
  | .negSucc k => (n, Nat.pow 10 (k + 1))

/-- The decimal `n * 10 ^ e` reads back as the number with this magnitude: it lies between the two
numbers half way to the neighbours. The ends belong to an even magnitude. -/
def readsBack (magnitude n : Nat) (e : Int) : Bool :=
  let u := Binary64.units magnitude
  let low := Binary64.units (magnitude - 1) + u
  let high := u + Binary64.units (magnitude + 1)
  let (num, den) := scaled n e
  let twice := 2 * num * Binary64.unitsOfOne
  if magnitude % 2 = 0 then low * den ≤ twice && twice ≤ high * den
  else low * den < twice && twice < high * den

/-- The grid point taken on the grid with spacing `10 ^ e`, if one of the two next to the number
reads back. -/
def onGrid (tie : Tie) (magnitude : Nat) (e : Int) : Option Nat :=
  let u := Binary64.units magnitude
  let (num, den) := scaled 1 e
  -- the number is `u * den / (num * unitsOfOne)` grid steps
  let step := num * Binary64.unitsOfOne
  let below := u * den / step
  let part := u * den % step
  let upper := step < 2 * part || (2 * part == step && (tie == .up || below % 2 == 1))
  match readsBack magnitude below e, readsBack magnitude (below + 1) e with
  | true, true => some (if upper then below + 1 else below)
  | true, false => some below
  | false, true => some (below + 1)
  | false, false => none

/-- Drops the trailing zeros of the digits; `fuel` bounds their number. -/
def trim : Nat → Decimal → Decimal
  | 0, d => d
  | fuel + 1, d =>
    if d.digits % 10 = 0 ∧ d.digits ≠ 0 then trim fuel ⟨d.digits / 10, d.exponent + 1⟩ else d

/-- The first grid with a point that reads back, from the spacing `10 ^ e` down. -/
def search (tie : Tie) (magnitude : Nat) : Nat → Int → Decimal
  | 0, e => ⟨(onGrid tie magnitude e).getD 0, e⟩
  | finer + 1, e =>
    match onGrid tie magnitude e with
    | some digits => ⟨digits, e⟩
    | none => search tie magnitude finer (e - 1)

/-- The shortest decimal of a positive finite magnitude. Seventeen digits are always enough. -/
def shortest (tie : Tie) (magnitude : Nat) : Decimal :=
  let found := search tie magnitude 16 (leadingExponent (Binary64.units magnitude))
  trim (digitCount found.digits) found

/-- The text of a decimal without an exponent. -/
def positionalText (wholeFraction : Bool) (d : Decimal) : String :=
  let digits := Nat.toDigits 10 d.digits
  let point : Int := digits.length + d.exponent
  let zeros (n : Nat) := List.replicate n '0'
  String.ofList <|
    if point ≤ 0 then '0' :: '.' :: (zeros (-point).toNat ++ digits)
    else if digits.length ≤ point then
      digits ++ zeros d.exponent.toNat ++ (if wholeFraction then ['.', '0'] else [])
    else digits.take point.toNat ++ '.' :: digits.drop point.toNat

/-- The text of a decimal with an exponent. -/
def scientificText (d : Decimal) : String :=
  match Nat.toDigits 10 d.digits with
  | [] => ""
  | lead :: rest =>
    let fraction := if rest.isEmpty then [] else '.' :: rest
    s!"{String.ofList (lead :: fraction)}e{rest.length + d.exponent}"

end Decimal

namespace NumberStyle

/-- The text of a magnitude. -/
def magnitudeText (style : NumberStyle) (magnitude : Nat) : String :=
  if magnitude = 0 then Decimal.positionalText style.wholeFraction ⟨0, 0⟩
  else
    let d := Decimal.shortest style.tie magnitude
    let exponent := (Decimal.digitCount d.digits : Int) - 1 + d.exponent
    if style.positional exponent then d.positionalText style.wholeFraction else d.scientificText

/-- The text of a number. -/
def format (style : NumberStyle) (x : Binary64) : String :=
  if x.isNaN then style.nan
  else
    let sign := if x.negative then "-" else ""
    sign ++ if x.isInfinite then style.infinity else style.magnitudeText x.magnitude

end NumberStyle

end IndexedLoop
