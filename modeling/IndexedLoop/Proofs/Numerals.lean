import IndexedLoop.Number.Literal
import IndexedLoop.Printer
import Mathlib

/-!
# Numbers read back

A finite number without a sign is written as digits with at most one point in them, and reading the text
gives the number back (`NumberLiteral.format_parts`). A value belongs to a magnitude if it lies between
the middles to the neighbours (`Binary64.Rounds`), and rounding finds that magnitude
(`Binary64.nearestMagnitude_eq_min`). The shortest decimal of a number belongs to it
(`Decimal.shortest_rounds`), since on the grid of seventeen digits one of the two points next to a number
always does (`Decimal.onGrid_isSome`).
-/

namespace IndexedLoop

/-- A statement about the members of a list of characters is decided along the list, not over all
characters. -/
instance (priority := high) decidableForallMemChars (p : Char → Prop) [DecidablePred p] (cs : List Char) :
    Decidable (∀ c ∈ cs, p c) :=
  List.decidableBAll p cs

/-! ## Rounding -/

/-- A fraction rounds to a number at most a half away, and to an even one if it is a half away. -/
theorem divNearest_eq {a b q : Nat} (hb : 0 < b) (low : 2 * (q * b) ≤ 2 * a + b)
    (high : 2 * a ≤ 2 * (q * b) + b)
    (odd : q % 2 = 1 → 2 * (q * b) < 2 * a + b ∧ 2 * a < 2 * (q * b) + b) : divNearest a b = q := by
  have split : b * (a / b) + a % b = a := Nat.div_add_mod a b
  have rem : a % b < b := Nat.mod_lt a hb
  rw [Nat.mul_comm] at split
  simp only [divNearest]
  generalize a / b = p at split ⊢
  generalize a % b = r at split rem ⊢
  have hp : p ≤ q := by
    by_contra h
    have := Nat.mul_le_mul_right b (show q + 1 ≤ p by omega)
    rw [Nat.add_mul] at this
    omega
  have hq : q ≤ p + 1 := by
    by_contra h
    have := Nat.mul_le_mul_right b (show p + 2 ≤ q by omega)
    rw [Nat.add_mul] at this
    omega
  obtain rfl | rfl : q = p ∨ q = p + 1 := by omega
  · split
    · rfl
    · split <;> omega
  · rw [Nat.add_mul] at low high odd
    split
    · omega
    · split <;> omega

namespace Binary64

/-- A magnitude with the shift `t` and the significand `q`. A number that is shifted has all its bits. -/
structure Split (t q : Nat) : Prop where
  full : t = 0 ∨ 2 ^ 52 ≤ q
  fits : q ≤ 2 ^ 53

theorem units_split {t q : Nat} (h : Split t q) : units (t * 2 ^ 52 + q) = q * 2 ^ t := by
  obtain ⟨full, fits⟩ := h
  have p52 : (2 : Nat) ^ 52 = 4503599627370496 := by norm_num
  have p53 : (2 : Nat) ^ 53 = 9007199254740992 := by norm_num
  simp only [units, fractionBits, Nat.pow_eq, p52, p53] at *
  by_cases small : q < 4503599627370496
  · obtain rfl : t = 0 := by omega
    rw [if_pos (by omega), Nat.mod_eq_of_lt (by omega)]
    simp
  · by_cases top : q = 9007199254740992
    · subst top
      have e : (t * 4503599627370496 + 9007199254740992) / 4503599627370496 = t + 2 := by omega
      have f : (t * 4503599627370496 + 9007199254740992) % 4503599627370496 = 0 := by omega
      rw [e, f, if_neg (by omega), show t + 2 - 1 = t + 1 by omega, Nat.pow_succ]
      ring
    · have e : (t * 4503599627370496 + q) / 4503599627370496 = t + 1 := by omega
      have f : (t * 4503599627370496 + q) % 4503599627370496 = q - 4503599627370496 := by omega
      rw [e, f, if_neg (by omega), show t + 1 - 1 = t by omega, Nat.sub_add_cancel (by omega)]

theorem exists_split (m : Nat) : ∃ t q, Split t q ∧ q < 2 ^ 53 ∧ m = t * 2 ^ 52 + q := by
  refine ⟨m / 2 ^ 52 - 1, m - (m / 2 ^ 52 - 1) * 2 ^ 52, ⟨?_, ?_⟩, ?_, ?_⟩ <;> omega

/-- Twice the middle between a magnitude and the one below it, in units. -/
def lowEnd (m : Nat) : Nat := units (m - 1) + units m

/-- Twice the middle between a magnitude and the one above it, in units. -/
def highEnd (m : Nat) : Nat := units m + units (m + 1)

theorem highEnd_split {t q : Nat} (h : Split t q) (hq : q < 2 ^ 53) :
    highEnd (t * 2 ^ 52 + q) = (2 * q + 1) * 2 ^ t := by
  have next : Split t (q + 1) := ⟨by have := h.full; omega, hq⟩
  rw [highEnd, units_split h, Nat.add_assoc, units_split next]
  ring

/-- Between powers of two the numbers are evenly spaced. -/
theorem lowEnd_split {t q : Nat} (h : Split t q) (hq : 0 < q) (inside : t = 0 ∨ 2 ^ 52 < q) :
    lowEnd (t * 2 ^ 52 + q) = (2 * q - 1) * 2 ^ t := by
  have below : Split t (q - 1) := ⟨by omega, by have := h.fits; omega⟩
  rw [lowEnd, units_split h, show t * 2 ^ 52 + q - 1 = t * 2 ^ 52 + (q - 1) by omega,
    units_split below, ← Nat.add_mul]
  congr 1
  omega

/-- Below a power of two the spacing halves. -/
theorem lowEnd_power (s : Nat) : lowEnd ((s + 1) * 2 ^ 52 + 2 ^ 52) = (2 ^ 54 - 1) * 2 ^ s := by
  have power : Split (s + 1) (2 ^ 52) := ⟨by omega, by omega⟩
  have below : Split s (2 ^ 53 - 1) := ⟨by omega, by omega⟩
  rw [lowEnd, units_split power, show (s + 1) * 2 ^ 52 + 2 ^ 52 - 1 = s * 2 ^ 52 + (2 ^ 53 - 1) by omega,
    units_split below, Nat.pow_succ]
  ring

/-- A value, in units, lies between the middles to the neighbours of a magnitude. The middles belong to
an even magnitude. -/
structure Rounds (m : Nat) (v : ℚ) : Prop where
  low : (lowEnd m : ℚ) ≤ 2 * v
  high : 2 * v ≤ highEnd m
  odd : m % 2 = 1 → (lowEnd m : ℚ) < 2 * v ∧ 2 * v < highEnd m

theorem log2_sub {f t : Nat} (low : t = 0 ∨ 2 ^ (52 + t) ≤ f) (high : f < 2 ^ (53 + t)) :
    f.log2 - 52 = t := by
  rcases low with rfl | low
  · by_cases f0 : f = 0
    · simp [f0]
    · have := (Nat.log2_lt f0).mpr high
      omega
  · have f0 : f ≠ 0 := by
      have := Nat.two_pow_pos (52 + t)
      omega
    rw [(Nat.log2_eq_iff f0).mpr ⟨low, by rwa [Nat.add_right_comm]⟩]
    omega

/-- A significand at its shift is the magnitude nearest to a fraction that rounds to it there, unless it is too
large. -/
theorem nearestMagnitude_shift {num den t q : Nat} (hden : 0 < den)
    (below : t = 0 ∨ 2 ^ (52 + t) * den ≤ num * unitsOfOne)
    (above : num * unitsOfOne < 2 ^ (53 + t) * den)
    (round : divNearest (num * unitsOfOne) (den * 2 ^ t) = q) :
    nearestMagnitude num den = min (t * 2 ^ 52 + q) infinityMagnitude := by
  have shift : (num * unitsOfOne / den).log2 - 52 = t := by
    refine log2_sub (below.imp_right fun h => ?_) ?_
    · exact (Nat.le_div_iff_mul_le hden).mpr h
    · exact (Nat.div_lt_iff_lt_mul hden).mpr above
  simp only [nearestMagnitude, fractionBits, Nat.pow_eq, shift, round]

theorem nearestMagnitude_eq_min {m : Nat} (num : Nat) {den : Nat} (hden : 0 < den)
    (h : Rounds m ((num * unitsOfOne : Nat) / (den : ℚ))) :
    nearestMagnitude num den = min m infinityMagnitude := by
  have hden' : (0 : ℚ) < den := by exact_mod_cast hden
  have low : lowEnd m * den ≤ 2 * (num * unitsOfOne) := by
    have := h.low
    rw [mul_div_assoc', le_div_iff₀ hden'] at this
    exact_mod_cast this
  have high : 2 * (num * unitsOfOne) ≤ highEnd m * den := by
    have := h.high
    rw [mul_div_assoc', div_le_iff₀ hden'] at this
    exact_mod_cast this
  have odd : m % 2 = 1 → lowEnd m * den < 2 * (num * unitsOfOne) ∧
      2 * (num * unitsOfOne) < highEnd m * den := by
    intro hodd
    have := h.odd hodd
    rw [mul_div_assoc', lt_div_iff₀ hden', div_lt_iff₀ hden'] at this
    exact_mod_cast this
  obtain ⟨t, q, hs, hq, rfl⟩ := exists_split m
  have parity : (t * 2 ^ 52 + q) % 2 = q % 2 := by omega
  rw [highEnd_split hs hq] at high odd
  rw [parity] at odd
  have pow52 : 2 ^ (52 + t) * den = 2 ^ 52 * (den * 2 ^ t) := by ring
  have pow53 : 2 ^ (53 + t) * den = 2 ^ 53 * (den * 2 ^ t) := by ring
  have width : (2 * q + 1) * 2 ^ t * den = 2 * (q * (den * 2 ^ t)) + den * 2 ^ t := by ring
  have X0 : 0 < den * 2 ^ t := Nat.mul_pos hden (Nat.two_pow_pos t)
  have top : q * (den * 2 ^ t) + den * 2 ^ t ≤ 2 ^ 53 * (den * 2 ^ t) := by
    rw [← Nat.succ_mul]
    exact Nat.mul_le_mul_right _ hq
  rw [width] at high odd
  rcases Nat.eq_zero_or_pos q with rfl | q0
  · obtain rfl : t = 0 := by have := hs.full; omega
    refine nearestMagnitude_shift hden (.inl rfl) (by omega) ?_
    exact divNearest_eq X0 (by omega) (by omega) (by omega)
  by_cases inside : t = 0 ∨ 2 ^ 52 < q
  · have width' : (2 * q - 1) * 2 ^ t * den + den * 2 ^ t = 2 * (q * (den * 2 ^ t)) := by
      obtain ⟨p, rfl⟩ : ∃ p, q = p + 1 := ⟨q - 1, by omega⟩
      rw [show 2 * (p + 1) - 1 = 2 * p + 1 by omega]
      ring
    rw [lowEnd_split hs q0 inside] at low odd
    refine nearestMagnitude_shift hden (inside.imp_right fun h52 => ?_) (by omega) ?_
    · have := Nat.mul_le_mul_right (den * 2 ^ t) h52
      rw [Nat.succ_mul] at this
      omega
    · exact divNearest_eq X0 (by omega) (by omega) (by omega)
  · obtain ⟨s, rfl⟩ : ∃ s, t = s + 1 := ⟨t - 1, by omega⟩
    obtain rfl : q = 2 ^ 52 := by have := hs.full; omega
    rw [lowEnd_power] at low
    have half : den * 2 ^ (s + 1) = 2 * (den * 2 ^ s) := by rw [Nat.pow_succ]; ring
    have width' : (2 ^ 54 - 1) * 2 ^ s * den = (2 ^ 54 - 1) * (den * 2 ^ s) := by ring
    rw [width'] at low
    by_cases above : 2 ^ (52 + (s + 1)) * den ≤ num * unitsOfOne
    · -- the fraction lies above the power of two, where the spacing is the number's own
      refine nearestMagnitude_shift hden (.inr above) (by omega) ?_
      exact divNearest_eq X0 (by omega) (by omega) (by omega)
    · -- it lies below, where the number is the last of the finer spacing
      have pow52' : 2 ^ (52 + s) * den = 2 ^ 52 * (den * 2 ^ s) := by ring
      have pow53' : 2 ^ (53 + s) * den = 2 ^ 53 * (den * 2 ^ s) := by ring
      have shifted : (s + 1) * 2 ^ 52 + 2 ^ 52 = s * 2 ^ 52 + 2 ^ 53 := by omega
      rw [shifted]
      refine nearestMagnitude_shift hden (.inr (by omega)) (by omega) ?_
      exact divNearest_eq (by omega) (by omega) (by omega) (by omega)

theorem nearestMagnitude_eq {m : Nat} (num : Nat) {den : Nat} (finite : m < infinityMagnitude) (hden : 0 < den)
    (h : Rounds m ((num * unitsOfOne : Nat) / (den : ℚ))) : nearestMagnitude num den = m := by
  rw [nearestMagnitude_eq_min num hden h, Nat.min_eq_left finite.le]

/-- A number is less than `10 ^ 16` times its distance to the next one. -/
theorem units_lt_above (m : Nat) : units m + 10 ^ 16 * units m < 10 ^ 16 * units (m + 1) := by
  obtain ⟨t, q, hs, hq, rfl⟩ := exists_split m
  have next : Split t (q + 1) := ⟨by have := hs.full; omega, hq⟩
  have pos := Nat.two_pow_pos t
  have fine : q * 2 ^ t < 10 ^ 16 * 2 ^ t := Nat.mul_lt_mul_of_pos_right (by omega) pos
  rw [Nat.add_assoc, units_split hs, units_split next]
  linarith [Nat.succ_mul q (2 ^ t)]

/-- A number is less than `10 ^ 16` times its distance to the one before. -/
theorem units_lt_below {m : Nat} (hm : 0 < m) :
    units m + 10 ^ 16 * units (m - 1) < 10 ^ 16 * units m := by
  obtain ⟨t, q, hs, hq, rfl⟩ := exists_split m
  by_cases inside : t = 0 ∨ 2 ^ 52 < q
  · obtain ⟨p, rfl⟩ : ∃ p, q = p + 1 := ⟨q - 1, by omega⟩
    have below : Split t p := ⟨by omega, by omega⟩
    have fine : (p + 1) * 2 ^ t < 10 ^ 16 * 2 ^ t :=
      Nat.mul_lt_mul_of_pos_right (by omega) (Nat.two_pow_pos t)
    rw [show t * 2 ^ 52 + (p + 1) - 1 = t * 2 ^ 52 + p by omega, units_split hs, units_split below]
    linarith [Nat.succ_mul p (2 ^ t)]
  · have := hs.full
    obtain ⟨s, rfl⟩ : ∃ s, t = s + 1 := ⟨t - 1, by omega⟩
    obtain rfl : q = 2 ^ 52 := by omega
    have below : Split s (2 ^ 53 - 1) := ⟨by omega, by omega⟩
    rw [show (s + 1) * 2 ^ 52 + 2 ^ 52 - 1 = s * 2 ^ 52 + (2 ^ 53 - 1) by omega, units_split hs,
      units_split below, Nat.pow_succ]
    have := Nat.two_pow_pos s
    omega

/-! ## Signs and magnitudes -/

theorem infinityMagnitude_lt : infinityMagnitude < 2 ^ 63 := by
  decide +kernel

theorem toNat_bits_ofParts (negative : Bool) {m : Nat} (h : m ≤ infinityMagnitude) :
    (ofParts negative m).bits.toNat = m + if negative then 2 ^ 63 else 0 := by
  have small := infinityMagnitude_lt
  have fits : m + (if negative then 2 ^ 63 else 0) < 2 ^ 64 := by
    split <;> omega
  exact UInt64.toNat_ofNat_of_lt' fits

theorem magnitude_ofParts (negative : Bool) {m : Nat} (h : m ≤ infinityMagnitude) :
    (ofParts negative m).magnitude = m := by
  have small := infinityMagnitude_lt
  rw [magnitude, toNat_bits_ofParts negative h, Nat.pow_eq]
  split <;> omega

theorem negative_ofParts (negative : Bool) {m : Nat} (h : m ≤ infinityMagnitude) :
    (ofParts negative m).negative = negative := by
  have small := infinityMagnitude_lt
  rw [Binary64.negative, toNat_bits_ofParts negative h, Nat.pow_eq]
  cases negative with
  | true => exact decide_eq_true (Nat.le_add_left ..)
  | false => exact decide_eq_false (Nat.not_le_of_lt (h.trans_lt small))

/-- A number is made up of its sign and its magnitude. -/
theorem ofParts_eq (x : Binary64) : ofParts x.negative x.magnitude = x := by
  have bits := x.bits.toNat_lt
  have number : x.magnitude + (if x.negative then Nat.pow 2 63 else 0) = x.bits.toNat := by
    simp only [negative, magnitude, Nat.pow_eq, decide_eq_true_eq]
    split <;> omega
  rw [ofParts, number, UInt64.ofNat_toNat]

end Binary64

/-! ## The shortest decimal -/

namespace Decimal

open Binary64

/-- The value of `n * 10 ^ e` in units. -/
def unitValue (n : Nat) (e : Int) : ℚ := n * 10 ^ e * unitsOfOne

theorem unitsOfOne_pos : 0 < unitsOfOne := by
  decide +kernel

theorem scaled_pos (n : Nat) (e : Int) : 0 < (scaled n e).2 := by
  cases e with
  | ofNat k => exact Nat.one_pos
  | negSucc k => exact Nat.pow_pos (by decide)

theorem scaled_value (n : Nat) (e : Int) :
    ((scaled n e).1 : ℚ) / (scaled n e).2 = n * 10 ^ e := by
  cases e with
  | ofNat k => simp [scaled]
  | negSucc k => simp [scaled, zpow_negSucc, div_eq_mul_inv]

/-- The test of a decimal compares its value with the ends of the magnitude. -/
theorem readsBack_iff (m n : Nat) (e : Int) :
    readsBack m n e = true ↔ Rounds m (unitValue n e) := by
  have den : (0 : ℚ) < (scaled n e).2 := by exact_mod_cast scaled_pos n e
  have value : 2 * unitValue n e = (2 * (scaled n e).1 * unitsOfOne : Nat) / ((scaled n e).2 : ℚ) := by
    rw [unitValue, ← scaled_value]
    push_cast
    ring
  have low (p : Nat) : (p : ℚ) ≤ 2 * unitValue n e ↔ p * (scaled n e).2 ≤ 2 * (scaled n e).1 * unitsOfOne := by
    rw [value, le_div_iff₀ den]
    exact_mod_cast Iff.rfl
  have low' (p : Nat) : (p : ℚ) < 2 * unitValue n e ↔ p * (scaled n e).2 < 2 * (scaled n e).1 * unitsOfOne := by
    rw [value, lt_div_iff₀ den]
    exact_mod_cast Iff.rfl
  have high (p : Nat) : 2 * unitValue n e ≤ (p : ℚ) ↔ 2 * (scaled n e).1 * unitsOfOne ≤ p * (scaled n e).2 := by
    rw [value, div_le_iff₀ den]
    exact_mod_cast Iff.rfl
  have high' (p : Nat) : 2 * unitValue n e < (p : ℚ) ↔ 2 * (scaled n e).1 * unitsOfOne < p * (scaled n e).2 := by
    rw [value, div_lt_iff₀ den]
    exact_mod_cast Iff.rfl
  have parts : Rounds m (unitValue n e) ↔ (lowEnd m : ℚ) ≤ 2 * unitValue n e ∧
      2 * unitValue n e ≤ highEnd m ∧ (m % 2 = 1 →
        (lowEnd m : ℚ) < 2 * unitValue n e ∧ 2 * unitValue n e < highEnd m) :=
    ⟨fun h => ⟨h.low, h.high, h.odd⟩, fun h => ⟨h.1, h.2.1, h.2.2⟩⟩
  rw [parts, low, high, low', high']
  simp only [readsBack, lowEnd, highEnd]
  by_cases even : m % 2 = 0
  · simp [even]
  · have odd : m % 2 = 1 := by omega
    simp only [odd, one_ne_zero, ↓reduceIte, Bool.and_eq_true, decide_eq_true_eq, forall_const]
    constructor
    · intro h
      exact ⟨h.1.le, h.2.le, h⟩
    · intro h
      exact h.2.2

theorem rounds_of_onGrid {tie : Tie} {m d : Nat} {e : Int} (h : onGrid tie m e = some d) :
    Rounds m (unitValue d e) := by
  rw [← readsBack_iff]
  simp only [onGrid] at h
  split at h <;> rename_i lower upper
  · split at h <;> cases h
    · exact upper
    · exact lower
  · cases h
    exact lower
  · cases h
    exact upper
  · cases h

theorem lt_ten_pow_digitCount (n : Nat) : n < 10 ^ digitCount n :=
  (Nat.length_toDigits_le_iff (by decide) Nat.length_toDigits_pos).mp (Nat.le_refl _)

theorem ten_pow_digitCount_le {n : Nat} (hn : 0 < n) : 10 ^ (digitCount n - 1) ≤ n := by
  by_cases one : digitCount n - 1 = 0
  · rw [one]
    exact hn
  · by_contra h
    have := (Nat.length_toDigits_le_iff (by decide) (Nat.pos_of_ne_zero one)).mpr (Nat.lt_of_not_le h)
    simp only [digitCount] at this one
    omega

/-- The power of ten at the leading exponent is at most the number. -/
theorem leadingExponent_le {u : Nat} (hu : 0 < u) : (10 : ℚ) ^ leadingExponent u * unitsOfOne ≤ u := by
  have one := unitsOfOne_pos
  unfold leadingExponent
  split
  · rename_i large
    have quotient : 0 < u / unitsOfOne := Nat.div_pos large one
    have count : 1 ≤ digitCount (u / unitsOfOne) := Nat.length_toDigits_pos
    rw [← Nat.cast_one, ← Nat.cast_sub count, zpow_natCast]
    have := Nat.mul_le_mul_right unitsOfOne (ten_pow_digitCount_le quotient)
    exact_mod_cast this.trans (Nat.div_mul_le_self u unitsOfOne)
  · have below : ∀ n, n < 10 ^ digitCount n := lt_ten_pow_digitCount
    specialize below ((unitsOfOne + u - 1) / u - 1)
    generalize digitCount ((unitsOfOne + u - 1) / u - 1) = d at below ⊢
    have ceil : unitsOfOne ≤ 10 ^ d * u := by
      have : (unitsOfOne + u - 1) / u < 10 ^ d + 1 := by omega
      rw [Nat.div_lt_iff_lt_mul hu, Nat.add_mul] at this
      omega
    rw [zpow_neg, zpow_natCast, inv_mul_le_iff₀ (by positivity)]
    exact_mod_cast ceil

/-- The number of grid steps that a number lies from zero, rounded down. -/
def stepsBelow (m : Nat) (e : Int) : Nat :=
  units m * (scaled 1 e).2 / ((scaled 1 e).1 * unitsOfOne)

theorem onGrid_isSome_iff (tie : Tie) (m : Nat) (e : Int) : (onGrid tie m e).isSome ↔
    readsBack m (stepsBelow m e) e = true ∨ readsBack m (stepsBelow m e + 1) e = true := by
  simp only [onGrid, stepsBelow]
  split <;> rename_i lower upper <;> simp [lower, upper]

/-- A number lies between two points of the grid. -/
theorem stepsBelow_bounds (m : Nat) (e : Int) :
    unitValue (stepsBelow m e) e ≤ units m ∧ (units m : ℚ) < unitValue (stepsBelow m e + 1) e := by
  have den : (0 : ℚ) < (scaled 1 e).2 := by exact_mod_cast scaled_pos 1 e
  have num : 0 < (scaled 1 e).1 * unitsOfOne := by
    refine Nat.mul_pos ?_ unitsOfOne_pos
    cases e with
    | ofNat k => simp [scaled]
    | negSucc k => simp [scaled]
  have value (d : Nat) : unitValue d e = (d * ((scaled 1 e).1 * unitsOfOne) : Nat) / ((scaled 1 e).2 : ℚ) := by
    have := scaled_value 1 e
    rw [unitValue, show (10 : ℚ) ^ e = (1 : Nat) * 10 ^ e by simp, ← this]
    push_cast
    ring
  rw [value, value, div_le_iff₀ den, lt_div_iff₀ den]
  refine ⟨?_, ?_⟩
  · exact_mod_cast Nat.div_mul_le_self _ _
  · exact_mod_cast Nat.lt_mul_of_div_lt (Nat.lt_succ_self _) num

/-- On a grid that is `10 ^ 16` times finer than the number, a point next to it reads back. -/
theorem onGrid_isSome (tie : Tie) {m : Nat} (hm : 0 < m) {e : Int}
    (fine : (10 : ℚ) ^ (e + 16) * unitsOfOne ≤ units m) : (onGrid tie m e).isSome := by
  have steps : 10 ^ 16 * (10 ^ e * (unitsOfOne : ℚ)) ≤ units m := by
    rw [zpow_add₀ (by norm_num)] at fine
    calc 10 ^ 16 * (10 ^ e * (unitsOfOne : ℚ)) = 10 ^ e * 10 ^ (16 : ℤ) * unitsOfOne := by
          rw [zpow_ofNat]
          ring
      _ ≤ units m := fine
  have above : (units m : ℚ) + 10 ^ 16 * units m < 10 ^ 16 * units (m + 1) := by
    exact_mod_cast units_lt_above m
  have below : (units m : ℚ) + 10 ^ 16 * units (m - 1) < 10 ^ 16 * units m := by
    exact_mod_cast units_lt_below hm
  obtain ⟨left, right⟩ := stepsBelow_bounds m e
  have next : unitValue (stepsBelow m e + 1) e = unitValue (stepsBelow m e) e + 10 ^ e * unitsOfOne := by
    simp only [unitValue]
    push_cast
    ring
  rw [onGrid_isSome_iff, readsBack_iff, readsBack_iff]
  -- the nearer of the two points is at most half a step away, less than half the distance to a neighbour
  by_cases near : 2 * units m ≤ 2 * unitValue (stepsBelow m e) e + 10 ^ e * unitsOfOne
  · left
    have low : (lowEnd m : ℚ) < 2 * unitValue (stepsBelow m e) e := by
      rw [lowEnd, Nat.cast_add]
      linarith
    have high : 2 * unitValue (stepsBelow m e) e < highEnd m := by
      rw [highEnd, Nat.cast_add]
      linarith
    exact ⟨low.le, high.le, fun _ => ⟨low, high⟩⟩
  · right
    have low : (lowEnd m : ℚ) < 2 * unitValue (stepsBelow m e + 1) e := by
      rw [lowEnd, Nat.cast_add]
      linarith
    have high : 2 * unitValue (stepsBelow m e + 1) e < highEnd m := by
      rw [highEnd, Nat.cast_add]
      linarith
    exact ⟨low.le, high.le, fun _ => ⟨low, high⟩⟩

theorem search_rounds (tie : Tie) {m : Nat} (finer : Nat) (e : Int)
    (last : (onGrid tie m (e - finer)).isSome) :
    Rounds m (unitValue (search tie m finer e).digits (search tie m finer e).exponent) := by
  induction finer generalizing e with
  | zero =>
    rw [Nat.cast_zero, sub_zero] at last
    obtain ⟨d, hd⟩ := Option.isSome_iff_exists.mp last
    simp only [search, hd, Option.getD_some]
    exact rounds_of_onGrid hd
  | succ finer ih =>
    simp only [search]
    split
    · rename_i d hd
      exact rounds_of_onGrid hd
    · refine ih (e - 1) ?_
      rw [show e - 1 - (finer : Int) = e - ((finer + 1 : Nat) : Int) by push_cast; ring]
      exact last

theorem trim_unitValue (fuel : Nat) (d : Decimal) :
    unitValue (trim fuel d).digits (trim fuel d).exponent = unitValue d.digits d.exponent := by
  induction fuel generalizing d with
  | zero => rfl
  | succ fuel ih =>
    rw [trim]
    split
    · rename_i h
      rw [ih, unitValue, unitValue, zpow_add_one₀ (by norm_num)]
      have : (d.digits : ℚ) = (d.digits / 10 : Nat) * 10 := by
        exact_mod_cast (Nat.div_mul_cancel (Nat.dvd_of_mod_eq_zero h.1)).symm
      rw [this]
      ring
    · rfl

theorem units_pos {m : Nat} (hm : 0 < m) : 0 < units m := by
  have := units_lt_below hm
  omega

/-- With seventeen digits a point reads back. -/
theorem onGrid_isSome_last (tie : Tie) {m : Nat} (hm : 0 < m) :
    (onGrid tie m (leadingExponent (units m) - (16 : Nat))).isSome := by
  refine onGrid_isSome tie hm ?_
  rw [Nat.cast_ofNat, sub_add_cancel]
  exact leadingExponent_le (units_pos hm)

/-- The shortest decimal of a number reads back as the number. -/
theorem shortest_rounds (tie : Tie) {m : Nat} (hm : 0 < m) :
    Rounds m (unitValue (shortest tie m).digits (shortest tie m).exponent) := by
  rw [shortest, trim_unitValue]
  exact search_rounds tie 16 _ (onGrid_isSome_last tie hm)

theorem digits_pos {m n : Nat} {e : Int} (hm : 0 < m) (h : Rounds m (unitValue n e)) : 0 < n := by
  by_contra none
  have low := h.low
  rw [Nat.eq_zero_of_not_pos none] at low
  simp only [unitValue, Nat.cast_zero, zero_mul, mul_zero] at low
  have low : lowEnd m ≤ 0 := by exact_mod_cast low
  have := units_pos hm
  rw [lowEnd] at low
  omega

end Decimal

/-! ## Reading -/

namespace NumberLiteral

open Binary64 Decimal

theorem units_strictMono : StrictMono units := strictMono_nat_of_lt_succ fun m => by
  have := units_lt_above m
  omega

/-- The least number is larger than what is read as zero for its size. -/
theorem exists_unitsOfOne_lt : ∃ k : Nat, (k : Int) = 330 ∧ 2 * unitsOfOne < Nat.pow 10 k :=
  ⟨330, rfl, by decide +kernel⟩

/-- The largest number is smaller than what is read as infinity for its size. -/
theorem exists_units_lt : ∃ k : Nat, (k : Int) = 310 ∧
    units infinityMagnitude < Nat.pow 10 k * unitsOfOne :=
  ⟨310, rfl, by decide +kernel⟩

/-- What starts too many places behind the point is less than half of the least number. -/
theorem two_mul_unitValue_lt_one {n : Nat} {e : Int} (small : (digitCount n : Int) + e < -330) :
    2 * unitValue n e < 1 := by
  obtain ⟨k, hk, hlt⟩ := exists_unitsOfOne_lt
  have digits : (n : ℚ) < 10 ^ (digitCount n : Int) := by
    rw [zpow_natCast]
    exact_mod_cast lt_ten_pow_digitCount n
  have size : (10 : ℚ) ^ ((digitCount n : Int) + e) ≤ 10 ^ (-(k : Int)) :=
    zpow_le_zpow_right₀ (by norm_num) (by omega)
  have one : (0 : ℚ) < unitsOfOne := by exact_mod_cast unitsOfOne_pos
  have value : unitValue n e ≤ 10 ^ (-(k : Int)) * unitsOfOne := by
    refine mul_le_mul_of_nonneg_right (le_trans ?_ size) one.le
    rw [zpow_add₀ (by norm_num)]
    exact mul_le_mul_of_nonneg_right digits.le (by positivity)
  have : 2 * (unitsOfOne : ℚ) < 10 ^ k := by exact_mod_cast hlt
  rw [zpow_neg, zpow_natCast, inv_mul_eq_div, le_div_iff₀ (by positivity)] at value
  by_contra large
  have := mul_le_mul_of_nonneg_right (not_lt.mp large) (show (0 : ℚ) ≤ 10 ^ k by positivity)
  linarith

/-- What has too many digits in front of the point is larger than every finite number. -/
theorem units_lt_unitValue {n : Nat} {e : Int} (hn : n ≠ 0) (large : 310 < (digitCount n : Int) + e) :
    (units infinityMagnitude : ℚ) < unitValue n e := by
  obtain ⟨k, hk, hlt⟩ := exists_units_lt
  have count : 1 ≤ digitCount n := Nat.length_toDigits_pos
  have digits : (10 : ℚ) ^ ((digitCount n : Int) - 1) ≤ n := by
    rw [← Nat.cast_one, ← Nat.cast_sub count, zpow_natCast]
    exact_mod_cast ten_pow_digitCount_le (Nat.pos_of_ne_zero hn)
  have size : (10 : ℚ) ^ (k : Int) ≤ 10 ^ ((digitCount n : Int) - 1 + e) :=
    zpow_le_zpow_right₀ (by norm_num) (by omega)
  have one : (0 : ℚ) < unitsOfOne := by exact_mod_cast unitsOfOne_pos
  have value : 10 ^ k * (unitsOfOne : ℚ) ≤ unitValue n e := by
    refine mul_le_mul_of_nonneg_right (le_trans ?_ (mul_le_mul_of_nonneg_right digits ?_)) one.le
    · rw [← zpow_natCast, ← zpow_add₀ (by norm_num)]
      exact size
    · positivity
  exact lt_of_lt_of_le (by exact_mod_cast hlt) value

/-- A decimal of a usual size is the fraction that it stands for, rounded. -/
theorem ofScientific_eq_ofRatio (negative : Bool) {n : Nat} {e : Int} (hn : n ≠ 0)
    (notSmall : ¬ ((digitCount n : Int) + e < -330)) (notLarge : ¬ (310 < (digitCount n : Int) + e)) :
    ofScientific negative n e = ofRatio negative (scaled n e).1 (scaled n e).2 := by
  simp only [digitCount] at notSmall notLarge
  simp only [ofScientific, hn, notSmall, notLarge, or_self, ↓reduceIte]
  cases e with
  | ofNat k => rfl
  | negSucc k => rfl

/-- A decimal that rounds to a number is read as the number: it is neither too large nor too small. -/
theorem ofScientific_eq {negative : Bool} {m n : Nat} {e : Int} (hm : 0 < m) (finite : m < infinityMagnitude)
    (h : Rounds m (unitValue n e)) : ofScientific negative n e = ofParts negative m := by
  have some : (1 : ℚ) ≤ 2 * unitValue n e := by
    have : 1 ≤ lowEnd m := by
      have := units_pos hm
      rw [lowEnd]
      omega
    exact le_trans (by exact_mod_cast this) h.low
  have few : 2 * unitValue n e ≤ 2 * units infinityMagnitude := by
    have : highEnd m ≤ 2 * units infinityMagnitude := by
      have := units_strictMono.monotone (show m ≤ infinityMagnitude by omega)
      have := units_strictMono.monotone (show m + 1 ≤ infinityMagnitude by omega)
      rw [highEnd]
      omega
    exact h.high.trans (by exact_mod_cast this)
  have n0 : n ≠ 0 := (digits_pos hm h).ne'
  have notSmall : ¬ ((digitCount n : Int) + e < -330) := fun small => by
    linarith [two_mul_unitValue_lt_one small]
  have notLarge : ¬ (310 < (digitCount n : Int) + e) := fun large => by
    linarith [units_lt_unitValue n0 large]
  have nearest := nearestMagnitude_eq (scaled n e).1 finite (scaled_pos n e) (by
    rw [Nat.cast_mul, mul_div_right_comm, scaled_value]
    exact h)
  rw [ofScientific_eq_ofRatio negative n0 notSmall notLarge, ofRatio, nearest]

theorem digit?_ten {c : Char} (h : c.isDigit = true) : digit? 10 c = some (c.toNat - '0'.toNat) := by
  simp only [Char.isDigit, Bool.and_eq_true, decide_eq_true_eq] at h
  have range : '0' ≤ c ∧ c ≤ '9' := h
  have : c.toNat - '0'.toNat < 10 := by
    have : c.toNat ≤ '9'.toNat := UInt32.le_iff_toNat_le.mp h.2
    have e0 : '0'.toNat = 48 := rfl
    have e9 : '9'.toNat = 57 := rfl
    omega
  simp only [digit?, range, and_self, ↓reduceIte, Option.filter_some, this, decide_true]

theorem digitsFrom?_eq {cs : List Char} (h : ∀ c ∈ cs, c.isDigit = true) (value : Nat) :
    digitsFrom? 10 value cs = some (Nat.ofDigitChars 10 cs value) := by
  induction cs generalizing value with
  | nil => simp [digitsFrom?]
  | cons c cs ih =>
    simp only [List.mem_cons, forall_eq_or_imp] at h
    rw [digitsFrom?, digit?_ten h.1, Option.bind_eq_bind, Option.bind_some, ih h.2,
      Nat.ofDigitChars_cons, Nat.mul_comm]

/-- The parts of the text of a number without sign and exponent: the digits in front of the point, which
start with a zero only if there is no other, and those behind it. -/
structure Parts where
  whole : List Char
  fraction : List Char
  some : whole ≠ []
  whole_digits : ∀ c ∈ whole, c.isDigit = true
  fraction_digits : ∀ c ∈ fraction, c.isDigit = true
  lead : whole = ['0'] ∨ whole.head? ≠ .some '0'

namespace Parts

/-- The text of a number; without a fraction it has no point. -/
def text (p : Parts) : List Char :=
  p.whole ++ if p.fraction = [] then [] else '.' :: p.fraction

/-- All digits as one number. -/
def digits (p : Parts) : Nat := Nat.ofDigitChars 10 (p.whole ++ p.fraction) 0

end Parts

theorem takeWhile_digits {ds : List Char} (h : ∀ c ∈ ds, c.isDigit = true) (rest : List Char)
    (stop : ∀ c ∈ rest.head?, c.isDigit = false) : (ds ++ rest).takeWhile Char.isDigit = ds := by
  rw [List.takeWhile_append_of_pos h]
  cases rest with
  | nil => simp
  | cons c rest => simp [stop c rfl]

theorem dropWhile_digits {ds : List Char} (h : ∀ c ∈ ds, c.isDigit = true) (rest : List Char)
    (stop : ∀ c ∈ rest.head?, c.isDigit = false) : (ds ++ rest).dropWhile Char.isDigit = rest := by
  rw [List.dropWhile_append_of_pos h]
  cases rest with
  | nil => rfl
  | cons c rest => simp [stop c rfl]

/-- The parts of a number are read as its digits, with the exponent behind them. -/
theorem decimal?_append (p : Parts) (tail : List Char) (stop : ∀ c ∈ tail.head?, c.isDigit = false ∧ c ≠ '.')
    {e : Int} (exponent : exponent? tail = some e) :
    decimal? false (p.text ++ tail) = some (ofScientific false p.digits (e - p.fraction.length)) := by
  have all : ∀ c ∈ p.whole ++ p.fraction, c.isDigit = true := fun c hc =>
    (List.mem_append.mp hc).elim (p.whole_digits c) (p.fraction_digits c)
  have stop' : ∀ c ∈ tail.head?, c.isDigit = false := fun c hc => (stop c hc).1
  by_cases none : p.fraction = []
  · have text : p.text ++ tail = p.whole ++ tail := by simp [Parts.text, none]
    rw [decimal?, text, takeWhile_digits p.whole_digits _ stop', dropWhile_digits p.whole_digits _ stop']
    split
    rename_i parts
    split at parts
    · exact absurd rfl (stop _ rfl).2
    · cases parts
      simp [none, p.some, exponent, Parts.digits, digitsFrom?_eq p.whole_digits 0]
  · have point : ∀ c ∈ ('.' :: (p.fraction ++ tail)).head?, c.isDigit = false := by
      rintro c hc
      cases hc
      decide
    have text : p.text ++ tail = p.whole ++ '.' :: (p.fraction ++ tail) := by simp [Parts.text, none]
    rw [decimal?, text, takeWhile_digits p.whole_digits _ point, dropWhile_digits p.whole_digits _ point]
    simp [takeWhile_digits p.fraction_digits _ stop', dropWhile_digits p.fraction_digits _ stop', p.some, exponent,
      Parts.digits, digitsFrom?_eq all 0]

theorem decimal?_text (p : Parts) :
    decimal? false p.text = some (ofScientific false p.digits (-(p.fraction.length : Int))) := by
  simpa using decimal?_append p [] (by simp) rfl

theorem Parts.mem_text {p : Parts} {c : Char} (h : c ∈ p.text) : c.isDigit = true ∨ c = '.' := by
  rw [Parts.text, List.mem_append] at h
  rcases h with h | h
  · exact .inl (p.whole_digits c h)
  · split at h
    · cases h
    · rcases List.mem_cons.mp h with h | h
      · exact .inr h
      · exact .inl (p.fraction_digits c h)

/-- The words for infinity and for no number start with a letter. -/
theorem lower_ne_word {d : Char} (hd : d.isDigit = true ∨ d = '.') (rest : List Char) {w : String}
    (hw : w ∈ ["inf", "infinity", "nan"]) : String.ofList ((d :: rest).map Char.toLower) ≠ w := by
  have lower : d.toLower = d := by
    rcases hd with digit | rfl
    · rw [Char.toLower, dif_neg]
      simp only [Char.isDigit, Bool.and_eq_true, decide_eq_true_eq] at digit
      rintro ⟨hA, -⟩
      exact absurd (UInt32.le_trans hA digit.2) (by decide)
    · rfl
  have letter : ∀ w ∈ ["inf", "infinity", "nan"], ∀ c ∈ w.toList.head?, c.isDigit = false ∧ c ≠ '.' := by simp
  rintro rfl
  have first := letter _ hw d (by simp [lower])
  rcases hd with digit | point
  · exact absurd digit (by simp [first.1])
  · exact first.2 point

theorem signed?_unsigned {d : Char} (hd : d.isDigit = true ∨ d = '.') (rest : List Char) :
    signed? (d :: rest) = decimal? false (d :: rest) := by
  have plus : d ≠ '+' := by
    rintro rfl
    exact absurd hd (by decide)
  have minus : d ≠ '-' := by
    rintro rfl
    exact absurd hd (by decide)
  have word {w : String} := lower_ne_word hd rest (w := w)
  unfold signed?
  split
  rename_i e
  split at e
  · rename_i first
    exact absurd (List.cons.inj first).1 plus
  · rename_i first
    exact absurd (List.cons.inj first).1 minus
  · cases e
    rw [if_neg (not_or.mpr ⟨word (by simp), word (by simp)⟩), if_neg (word (by simp))]

theorem signed?_minus {d : Char} (hd : d.isDigit = true ∨ d = '.') (rest : List Char) :
    signed? ('-' :: d :: rest) = decimal? true (d :: rest) := by
  have word {w : String} := lower_ne_word hd rest (w := w)
  exact (if_neg (not_or.mpr ⟨word (by simp), word (by simp)⟩)).trans (if_neg (word (by simp)))

theorem Parts.exists_text_eq (p : Parts) : ∃ d rest, p.text = d :: rest ∧ d.isDigit = true ∧
    (d = '0' → rest = [] ∨ ∃ more, rest = '.' :: more) := by
  obtain ⟨d, ws, hw⟩ := List.exists_cons_of_ne_nil p.some
  refine ⟨d, _, by rw [Parts.text, hw]; rfl, p.whole_digits d (by simp [hw]), ?_⟩
  rintro rfl
  have : ws = [] := by
    rcases p.lead with h | h
    · rw [hw] at h
      exact (List.cons.inj h).2
    · exact absurd (by rw [hw]; rfl) h
  subst this
  split
  · exact .inl rfl
  · exact .inr ⟨_, rfl⟩

/-- A number without sign and exponent is read as the decimal of its digits. -/
theorem read?_text (p : Parts) : read? (String.ofList p.text) =
    some (ofScientific false p.digits (-(p.fraction.length : Int))) := by
  have filter : p.text.filter (· ≠ '_') = p.text := by
    rw [List.filter_eq_self]
    intro c hc
    rcases Parts.mem_text hc with h | rfl
    · have : c ≠ '_' := by
        rintro rfl
        exact absurd h (by decide)
      simpa using this
    · decide
  obtain ⟨d, rest, text, digit, zero⟩ := p.exists_text_eq
  rw [read?, String.toList_ofList, filter, ← decimal?_text, text]
  by_cases lead : d = '0'
  · subst lead
    rcases zero rfl with rfl | ⟨more, rfl⟩
    · exact signed?_unsigned (.inl digit) []
    · exact signed?_unsigned (.inl digit) _
  · split
    case h_8 => exact signed?_unsigned (.inl digit) rest
    all_goals
      rename_i e
      exact absurd (List.cons.inj e).1 lead


/-! ## Writing -/

theorem head?_toDigits_ne_zero {n : Nat} (hn : 0 < n) : (Nat.toDigits 10 n).head? ≠ some '0' := by
  induction n using Nat.strongRecOn with
  | ind n ih =>
    rw [Nat.toDigits_eq_if (by decide)]
    split
    · rename_i small
      have : ∀ k < 10, 0 < k → k.digitChar ≠ '0' := by decide
      simpa using this n small hn
    · rw [List.head?_append_of_ne_nil _ Nat.toDigits_ne_nil]
      exact ih (n / 10) (by omega) (by omega)

theorem isDigit_toDigits {n : Nat} {c : Char} (h : c ∈ Nat.toDigits 10 n) : c.isDigit = true :=
  Nat.isDigit_of_mem_toDigits (by decide) (Nat.le_refl 10) h

theorem isDigit_replicate {n : Nat} {c : Char} (h : c ∈ List.replicate n '0') : c.isDigit = true := by
  rw [List.eq_of_mem_replicate h]
  decide

/-- A decimal is written in parts that have its value. -/
theorem positionalText_parts (wholeFraction : Bool) {d : Decimal} (hd : 0 < d.digits) : ∃ p : Parts,
    d.positionalText wholeFraction = String.ofList p.text ∧
      unitValue p.digits (-(p.fraction.length : Int)) = unitValue d.digits d.exponent := by
  have lead := head?_toDigits_ne_zero hd
  have some : 0 < (Nat.toDigits 10 d.digits).length := Nat.length_toDigits_pos
  have value : Nat.ofDigitChars 10 (Nat.toDigits 10 d.digits) 0 = d.digits := Nat.ofDigitChars_ten_toDigits
  have digits : ∀ c ∈ Nat.toDigits 10 d.digits, c.isDigit = true := fun c => isDigit_toDigits
  simp only [positionalText]
  generalize Nat.toDigits 10 d.digits = ds at *
  by_cases small : (ds.length : Int) + d.exponent ≤ 0
  · refine ⟨⟨['0'], List.replicate (-((ds.length : Int) + d.exponent)).toNat '0' ++ ds, by simp,
      by decide, ?_, .inl rfl⟩, ?_, ?_⟩
    · intro c hc
      exact (List.mem_append.mp hc).elim isDigit_replicate (digits c)
    · have : ds ≠ [] := List.length_pos_iff.mp some
      simp [small, Parts.text, this]
    · have exponent : -((List.replicate (-((ds.length : Int) + d.exponent)).toNat '0' ++ ds).length : Int) =
          d.exponent := by
        simp only [List.length_append, List.length_replicate]
        omega
      simp only [Parts.digits, exponent]
      simp [Nat.ofDigitChars_cons, Nat.ofDigitChars_append, value]
  by_cases large : (ds.length : Int) ≤ ds.length + d.exponent
  · refine ⟨⟨ds ++ List.replicate d.exponent.toNat '0', if wholeFraction then ['0'] else [],
      by simp [List.length_pos_iff.mp some], ?_, by cases wholeFraction <;> decide, .inr ?_⟩, ?_, ?_⟩
    · intro c hc
      exact (List.mem_append.mp hc).elim (digits c) isDigit_replicate
    · rwa [List.head?_append_of_ne_nil _ (List.length_pos_iff.mp some)]
    · cases wholeFraction <;> simp [small, large, Parts.text]
    · obtain ⟨k, hk⟩ := Int.eq_ofNat_of_zero_le (show 0 ≤ d.exponent by omega)
      simp only [Parts.digits, Nat.ofDigitChars_append, value, Nat.ofDigitChars_replicate_zero, unitValue, hk,
        Int.toNat_natCast, zpow_natCast]
      cases wholeFraction with
      | true =>
        simp only [↓reduceIte, Nat.ofDigitChars_cons, Nat.ofDigitChars_nil, List.length_singleton, Nat.cast_one,
          zpow_neg_one]
        push_cast
        ring
      | false =>
        simp only [Bool.false_eq_true, ↓reduceIte, Nat.ofDigitChars_nil, List.length_nil, Nat.cast_zero, neg_zero,
          zpow_zero, Nat.cast_mul, Nat.cast_pow, Nat.cast_ofNat]
        ring
  · have point : (((ds.length : Int) + d.exponent).toNat : Int) = ds.length + d.exponent := by omega
    refine ⟨⟨ds.take ((ds.length : Int) + d.exponent).toNat, ds.drop ((ds.length : Int) + d.exponent).toNat,
      ?_, fun c hc => digits c (List.mem_of_mem_take hc), fun c hc => digits c (List.mem_of_mem_drop hc),
      .inr ?_⟩, ?_, ?_⟩
    · rw [← List.length_pos_iff, List.length_take]
      omega
    · rwa [List.head?_take, if_neg (by omega)]
    · have : ds.drop ((ds.length : Int) + d.exponent).toNat ≠ [] := by
        rw [← List.length_pos_iff, List.length_drop]
        omega
      simp only [small, large, Parts.text, this, ↓reduceIte]
    · have exponent : -((ds.drop ((ds.length : Int) + d.exponent).toNat).length : Int) = d.exponent := by
        rw [List.length_drop]
        omega
      simp only [Parts.digits, exponent, List.take_append_drop, value]

theorem ofParts_magnitude {x : Binary64} (h : x.negative = false) : ofParts false x.magnitude = x := by
  rw [← h, ofParts_eq]

/-- Zero is written as a zero. -/
def zeroParts : Parts := ⟨['0'], [], by decide, by decide, by decide, .inl rfl⟩

/-- A magnitude is written in parts that round to it. -/
theorem magnitudeText_parts (m : Nat) : ∃ p : Parts, numberStyle.magnitudeText m = String.ofList p.text ∧
    (m = 0 → p = zeroParts) ∧ (0 < m → Rounds m (unitValue p.digits (-(p.fraction.length : Int)))) := by
  by_cases zero : m = 0
  · refine ⟨zeroParts, ?_, fun _ => rfl, fun pos => absurd zero (Nat.ne_of_gt pos)⟩
    rw [NumberStyle.magnitudeText, if_pos zero]
    rfl
  · have pos : 0 < m := Nat.pos_of_ne_zero zero
    have rounds := shortest_rounds numberStyle.tie pos
    obtain ⟨p, text, value⟩ := positionalText_parts false (digits_pos pos rounds)
    refine ⟨p, ?_, fun e => absurd e zero, fun _ => value ▸ rounds⟩
    rw [NumberStyle.magnitudeText, if_neg zero]
    exact text

/-- The sign in front of a number. -/
def signText (negative : Bool) : List Char := if negative then ['-'] else []

/-- A finite number is written as its sign and its magnitude, in whatever style. -/
theorem format_finite (style : NumberStyle) {x : Binary64} (finite : x.isFinite = true) :
    (style.format x).toList = signText x.negative ++ (style.magnitudeText x.magnitude).toList := by
  have finite := of_decide_eq_true finite
  have number : x.isNaN = false := decide_eq_false (by omega)
  have bounded : x.isInfinite = false := decide_eq_false (by omega)
  simp only [NumberStyle.format, number, bounded, signText]
  cases x.negative <;> simp

/-- The text of a finite number without a sign consists of digits and a point, and is read as the
number. -/
theorem format_parts {x : Binary64} (finite : x.isFinite = true) (positive : x.negative = false) :
    ∃ p : Parts, numberStyle.format x = String.ofList p.text ∧
      read? (numberStyle.format x) = some x := by
  have text : numberStyle.format x = numberStyle.magnitudeText x.magnitude := by
    rw [← String.toList_inj, format_finite numberStyle finite, positive]
    rfl
  obtain ⟨p, parts, zero, rounds⟩ := magnitudeText_parts x.magnitude
  refine ⟨p, text.trans parts, ?_⟩
  rw [text, parts, read?_text]
  rcases Nat.eq_zero_or_pos x.magnitude with e | pos
  · rw [zero e, ← ofParts_magnitude positive, e]
    rfl
  · rw [ofScientific_eq pos (of_decide_eq_true finite) (rounds pos), ofParts_magnitude positive]

end NumberLiteral
end IndexedLoop
