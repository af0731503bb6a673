/-!
# Numbers of 64 bits

A `Binary64` is the bit pattern of an IEEE 754 number: a sign, eleven bits of exponent and fifty-two
of fraction. The pattern without its sign is the `magnitude`, and the finite magnitudes are ordered
as their values are. `units` is the value of a magnitude as a multiple of `2 ^ -1074`, the least
positive number, so that all of rounding is arithmetic on natural numbers. `ofRatio` is the nearest
number to a fraction, and a half goes to the even neighbour.
-/

namespace IndexedLoop

/-- An IEEE 754 number of 64 bits. -/
structure Binary64 where
  bits : UInt64
deriving DecidableEq, Inhabited, Repr

/-- `a / b`, rounded to the nearest natural number; a half goes to the even neighbour. -/
def divNearest (a b : Nat) : Nat :=
  let q := a / b
  let r := a % b
  if 2 * r < b then q else if b < 2 * r then q + 1 else q + q % 2

namespace Binary64

/-- The number of bits of the fraction. -/
def fractionBits : Nat := 52

/-- The magnitude of infinity. The magnitudes above it are no numbers. -/
def infinityMagnitude : Nat := 2047 * Nat.pow 2 fractionBits

/-- The bit pattern without its sign. -/
def magnitude (x : Binary64) : Nat := x.bits.toNat % Nat.pow 2 63

/-- The sign bit is set. -/
def negative (x : Binary64) : Bool := Nat.pow 2 63 ≤ x.bits.toNat

/-- The number with this sign and magnitude. -/
def ofParts (negative : Bool) (magnitude : Nat) : Binary64 :=
  ⟨UInt64.ofNat (magnitude + if negative then Nat.pow 2 63 else 0)⟩

def isNaN (x : Binary64) : Bool := infinityMagnitude < x.magnitude

def isInfinite (x : Binary64) : Bool := x.magnitude = infinityMagnitude

def isFinite (x : Binary64) : Bool := x.magnitude < infinityMagnitude

/-- The value of a finite magnitude as a multiple of `2 ^ -1074`. -/
def units (magnitude : Nat) : Nat :=
  let exponent := magnitude / Nat.pow 2 fractionBits
  let fraction := magnitude % Nat.pow 2 fractionBits
  if exponent = 0 then fraction else (fraction + Nat.pow 2 fractionBits) * Nat.pow 2 (exponent - 1)

/-- The units in the number one. -/
def unitsOfOne : Nat := Nat.pow 2 1074

/-- The magnitude nearest to `num / den`; what is too large is infinity. -/
def nearestMagnitude (num den : Nat) : Nat :=
  let scaled := num * unitsOfOne
  let shift := (scaled / den).log2 - fractionBits
  min (shift * Nat.pow 2 fractionBits + divNearest scaled (den * Nat.pow 2 shift)) infinityMagnitude

/-- The number nearest to `num / den`, with a sign. -/
def ofRatio (negative : Bool) (num den : Nat) : Binary64 :=
  ofParts negative (nearestMagnitude num den)

/-- The number nearest to a natural number. -/
def ofNat (n : Nat) : Binary64 :=
  ofRatio false n 1

/-- Zero, with a sign. -/
def zero (negative : Bool) : Binary64 := ofParts negative 0

/-- Infinity, with a sign. -/
def infinity (negative : Bool) : Binary64 := ofParts negative infinityMagnitude

/-- The pattern that stands for "not a number", with a sign. -/
def nan (negative : Bool) : Binary64 :=
  ofParts negative (infinityMagnitude + Nat.pow 2 (fractionBits - 1))

end Binary64

end IndexedLoop
