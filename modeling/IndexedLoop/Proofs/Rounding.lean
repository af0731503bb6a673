import IndexedLoop.Proofs.Numerals

/-!
# Numbers near a value

The value of a number is an exact fraction, and a number is nearest to a value (`Binary64.Nearest`) if no other
is nearer; of two that are equally near it is the one with an even last bit. Every value that is not negative
belongs to a magnitude (`Binary64.exists_rounds`), and the number with that magnitude is nearest to it
(`Binary64.Rounds.nearest`). So a whole number (`NumberLiteral.roundsTo_ofNat`) and a decimal
(`NumberLiteral.roundsTo_ofScientific`) become the number nearest to them, or infinity if they are too large.
-/

namespace IndexedLoop

namespace Binary64

/-- The value of a finite number. -/
def value (x : Binary64) : ℚ :=
  (if x.negative then -1 else 1) * (units x.magnitude / unitsOfOne)

/-- No finite number is nearer to the value, and of two that are equally near this is the even one. -/
structure Nearest (v : ℚ) (x : Binary64) : Prop where
  finite : x.isFinite = true
  least (y : Binary64) (hy : y.isFinite = true) : |x.value - v| ≤ |y.value - v|
  even (y : Binary64) (hy : y.isFinite = true) (other : y.value ≠ x.value) (tie : |y.value - v| = |x.value - v|) :
    x.magnitude % 2 = 0

/-- A value that is not negative, rounded. From the middle between the largest number and the power of two behind it
on, it is infinite. -/
inductive RoundsTo (v : ℚ) : Binary64 → Prop
  | finite {x : Binary64} (small : v < 2 ^ 1024 - 2 ^ 970) (positive : x.negative = false) (nearest : x.Nearest v) :
      RoundsTo v x
  | infinite (large : 2 ^ 1024 - 2 ^ 970 ≤ v) : RoundsTo v (infinity false)

/-! ## The magnitude of a value -/

open NumberLiteral (units_strictMono)

theorem units_le_units {k m : Nat} (h : k ≤ m) : (units k : ℚ) ≤ units m := by
  exact_mod_cast units_strictMono.monotone h

theorem units_zero : units 0 = 0 := by
  decide

/-- What belongs to a magnitude is no nearer to any other. -/
theorem Rounds.least {m : Nat} {u : ℚ} (h : Rounds m u) (k : Nat) : |(units m : ℚ) - u| ≤ |(units k : ℚ) - u| := by
  obtain ⟨low, high, -⟩ := h
  rw [lowEnd, Nat.cast_add] at low
  rw [highEnd, Nat.cast_add] at high
  rcases lt_trichotomy k m with lt | rfl | lt
  · have := units_le_units (Nat.le_sub_one_of_lt lt)
    have := units_le_units lt.le
    rw [abs_sub_comm (units k : ℚ)]
    exact (abs_sub_le_iff.mpr ⟨by linarith, by linarith⟩).trans (le_abs_self _)
  · exact le_rfl
  · have := units_le_units (Nat.succ_le_of_lt lt)
    have := units_le_units lt.le
    exact (abs_sub_le_iff.mpr ⟨by linarith, by linarith⟩).trans (le_abs_self _)

/-- What is equally near to two magnitudes belongs to the even one. -/
theorem Rounds.even {m : Nat} {u : ℚ} (h : Rounds m u) {k : Nat} (other : k ≠ m)
    (tie : |(units k : ℚ) - u| = |(units m : ℚ) - u|) : m % 2 = 0 := by
  by_contra odd
  obtain ⟨low, high⟩ := h.odd (by omega)
  rw [lowEnd, Nat.cast_add] at low
  rw [highEnd, Nat.cast_add] at high
  have nearer : |(units m : ℚ) - u| < |(units k : ℚ) - u| := by
    rcases Nat.lt_or_gt_of_ne other with lt | lt
    · have := units_le_units (Nat.le_sub_one_of_lt lt)
      have : (units k : ℚ) < units m := by exact_mod_cast units_strictMono lt
      rw [abs_sub_comm (units k : ℚ)]
      exact (abs_sub_lt_iff.mpr ⟨by linarith, by linarith⟩).trans_le (le_abs_self _)
    · have := units_le_units (Nat.succ_le_of_lt lt)
      have : (units m : ℚ) < units k := by exact_mod_cast units_strictMono lt
      exact (abs_sub_lt_iff.mpr ⟨by linarith, by linarith⟩).trans_le (le_abs_self _)
  exact nearer.ne' tie

/-- Every value that is not negative belongs to a magnitude: it lies between two of them, and belongs to the nearer
one, or to the even one if it lies in the middle. -/
theorem exists_rounds {u : ℚ} (hu : 0 ≤ u) : ∃ m, Rounds m u := by
  have above : ∃ k, u < units k := by
    obtain ⟨k, hk⟩ := exists_nat_gt u
    exact ⟨k, hk.trans_le (by exact_mod_cast units_strictMono.le_apply)⟩
  obtain ⟨j, hj⟩ : ∃ j, Nat.find above = j + 1 := by
    refine Nat.exists_eq_succ_of_ne_zero fun zero => ?_
    have := Nat.find_spec above
    rw [zero, units_zero, Nat.cast_zero] at this
    linarith
  have upper : u < units (j + 1) := hj ▸ Nat.find_spec above
  have lower : (units j : ℚ) ≤ u := not_lt.mp (Nat.find_min above (by omega))
  have ends : lowEnd (j + 1) = highEnd j := rfl
  have start : (lowEnd j : ℚ) ≤ 2 * u := by
    rw [lowEnd, Nat.cast_add]
    linarith [units_le_units (Nat.sub_le j 1)]
  have stop : 2 * u < highEnd (j + 1) := by
    rw [highEnd, Nat.cast_add]
    linarith [units_le_units (Nat.le_succ (j + 1))]
  have inside (odd : j % 2 = 1) : (lowEnd j : ℚ) < 2 * u := by
    have : (units (j - 1) : ℚ) < units j := by exact_mod_cast units_strictMono (by omega : j - 1 < j)
    rw [lowEnd, Nat.cast_add]
    linarith
  rcases lt_trichotomy (2 * u) (highEnd j) with lt | middle | lt
  · exact ⟨j, start, lt.le, fun odd => ⟨inside odd, lt⟩⟩
  · by_cases even : j % 2 = 0
    · exact ⟨j, start, middle.le, fun odd => by omega⟩
    · exact ⟨j + 1, ends ▸ middle.ge, stop.le, fun odd => by omega⟩
  · exact ⟨j + 1, ends ▸ lt.le, stop.le, fun _ => ⟨ends ▸ lt, stop⟩⟩

/-! ## The nearest number -/

theorem cast_unitsOfOne_pos : (0 : ℚ) < unitsOfOne := by
  exact_mod_cast Decimal.unitsOfOne_pos

theorem value_ofParts {m : Nat} (h : m ≤ infinityMagnitude) : (ofParts false m).value = units m / unitsOfOne := by
  rw [value, negative_ofParts false h, magnitude_ofParts false h, if_neg Bool.false_ne_true, one_mul]

/-- The distance of a number to a value, in units. -/
theorem abs_value_sub (x : Binary64) (v : ℚ) : |x.value - v| * unitsOfOne =
    |(if x.negative then -(units x.magnitude : ℚ) else units x.magnitude) - v * unitsOfOne| := by
  have one := cast_unitsOfOne_pos
  rw [← abs_of_pos one, ← abs_mul, abs_of_pos one, sub_mul, value]
  split
  · rw [neg_one_mul, neg_mul, div_mul_cancel₀ _ one.ne']
  · rw [one_mul, div_mul_cancel₀ _ one.ne']

/-- A negative number is no nearer to a value that is not negative than the number without its sign. -/
theorem abs_units_sub_le (x : Binary64) {u : ℚ} (hu : 0 ≤ u) : |(units x.magnitude : ℚ) - u| ≤
    |(if x.negative then -(units x.magnitude : ℚ) else units x.magnitude) - u| := by
  have : (0 : ℚ) ≤ units x.magnitude := Nat.cast_nonneg _
  split
  · rw [abs_sub_comm, ← abs_neg (-_ - _)]
    exact (abs_sub_le_iff.mpr ⟨by linarith, by linarith⟩).trans (le_abs_self _)
  · exact le_rfl

theorem Rounds.nearest {m : Nat} {v : ℚ} (hv : 0 ≤ v) (finite : m < infinityMagnitude)
    (h : Rounds m (v * unitsOfOne)) : (ofParts false m).Nearest v := by
  have one := cast_unitsOfOne_pos
  have hu : 0 ≤ v * unitsOfOne := mul_nonneg hv one.le
  have here : |(ofParts false m).value - v| * unitsOfOne = |(units m : ℚ) - v * unitsOfOne| := by
    rw [abs_value_sub, negative_ofParts false finite.le, magnitude_ofParts false finite.le]
    rfl
  refine ⟨?_, fun y _ => ?_, fun y _ other tie => ?_⟩
  · rw [isFinite, magnitude_ofParts false finite.le]
    exact decide_eq_true finite
  · rw [← mul_le_mul_iff_left₀ one, here, abs_value_sub]
    exact (h.least y.magnitude).trans (abs_units_sub_le y hu)
  · rw [magnitude_ofParts false finite.le]
    have tie : |(if y.negative then -(units y.magnitude : ℚ) else units y.magnitude) - v * unitsOfOne| =
        |(units m : ℚ) - v * unitsOfOne| := by rw [← abs_value_sub, tie, here]
    have same : |(units y.magnitude : ℚ) - v * unitsOfOne| = |(units m : ℚ) - v * unitsOfOne| :=
      le_antisymm ((abs_units_sub_le y hu).trans tie.le) (h.least _)
    by_cases equal : y.magnitude = m
    · -- the number itself with the other sign is as near only if it is zero
      have : (0 : ℚ) ≤ units m := Nat.cast_nonneg _
      have low := h.low
      rw [lowEnd, Nat.cast_add] at low
      rw [equal] at tie
      have zero : (units m : ℚ) = 0 := by
        split at tie
        · rw [← abs_neg (-_ - _), abs_of_nonneg (by linarith)] at tie
          rcases abs_cases ((units m : ℚ) - v * unitsOfOne) with ⟨e, -⟩ | ⟨e, -⟩
          · linarith [Nat.cast_nonneg (α := ℚ) (units (m - 1))]
          · linarith
        · next positive =>
          refine absurd ?_ other
          rw [value_ofParts finite.le, value, if_neg positive, one_mul, equal]
      obtain rfl : m = 0 := units_strictMono.injective ((Nat.cast_eq_zero.mp zero).trans units_zero.symm)
      rfl
    · exact h.even equal same

/-! ## Values that are too large -/

/-- The middle between the largest finite number and infinity. -/
theorem lowEnd_infinity : (lowEnd infinityMagnitude : ℚ) = 2 * ((2 ^ 1024 - 2 ^ 970) * unitsOfOne) := by
  have power : lowEnd infinityMagnitude = (2 ^ 54 - 1) * 2 ^ 2045 := lowEnd_power 2045
  have one : unitsOfOne = 2 ^ 1074 := by decide +kernel
  have regroup (a b c : ℚ) : (a - 1) * (b * c * 2) = 2 * ((a * b - b) * c) := by ring
  have bits : ((2 ^ 54 - 1 : Nat) : ℚ) = 2 ^ 54 - 1 := by norm_num
  calc (lowEnd infinityMagnitude : ℚ) = (2 ^ 54 - 1) * 2 ^ 2045 := by
        rw [power, Nat.cast_mul, Nat.cast_pow, Nat.cast_ofNat, bits]
    _ = (2 ^ 54 - 1) * (2 ^ 970 * 2 ^ 1074 * 2) := by
        rw [← pow_add, ← pow_succ]
    _ = 2 * ((2 ^ 54 * 2 ^ 970 - 2 ^ 970) * 2 ^ 1074) :=
        regroup ..
    _ = 2 * ((2 ^ 1024 - 2 ^ 970) * unitsOfOne) := by
        rw [← pow_add, one, Nat.cast_pow, Nat.cast_ofNat]

theorem lt_lowEnd_infinity {v : ℚ} :
    2 * (v * unitsOfOne) < lowEnd infinityMagnitude ↔ v < 2 ^ 1024 - 2 ^ 970 := by
  rw [lowEnd_infinity, mul_lt_mul_iff_right₀ two_pos, mul_lt_mul_iff_left₀ cast_unitsOfOne_pos]

/-- A value belongs to a finite magnitude if it lies below that middle. The magnitude of infinity is even, so the
middle itself does not. -/
theorem Rounds.lt_infinity {m : Nat} {u : ℚ} (h : Rounds m u) :
    m < infinityMagnitude ↔ 2 * u < lowEnd infinityMagnitude := by
  have parity : infinityMagnitude % 2 = 0 := by decide +kernel
  constructor
  · intro finite
    obtain ⟨top, hm⟩ : ∃ top, infinityMagnitude = top + 1 := ⟨infinityMagnitude - 1, by omega⟩
    have ends : lowEnd infinityMagnitude = highEnd top := by
      rw [hm]
      rfl
    rw [ends]
    rcases Nat.lt_or_eq_of_le (show m ≤ top by omega) with lt | rfl
    · refine h.high.trans_lt ?_
      have := units_strictMono lt
      have := units_strictMono.monotone (show m + 1 ≤ top by omega)
      have := units_strictMono (Nat.lt_add_one top)
      exact_mod_cast show highEnd m < highEnd top by
        rw [highEnd, highEnd]
        omega
    · exact (h.odd (by omega)).2
  · intro below
    by_contra large
    have := units_strictMono.monotone (not_lt.mp large)
    have := units_strictMono.monotone (Nat.sub_le_sub_right (not_lt.mp large) 1)
    have ends : (lowEnd infinityMagnitude : ℚ) ≤ lowEnd m := by
      exact_mod_cast show lowEnd infinityMagnitude ≤ lowEnd m by
        rw [lowEnd, lowEnd]
        omega
    exact absurd (ends.trans h.low) (not_le.mpr below)

/-- The number with the magnitude of a value is the value, rounded. -/
theorem Rounds.roundsTo {m : Nat} {v : ℚ} (hv : 0 ≤ v) (h : Rounds m (v * unitsOfOne)) :
    RoundsTo v (ofParts false (min m infinityMagnitude)) := by
  by_cases finite : m < infinityMagnitude
  · rw [Nat.min_eq_left finite.le]
    have small := lt_lowEnd_infinity.mp (h.lt_infinity.mp finite)
    exact .finite small (negative_ofParts false finite.le) (h.nearest hv finite)
  · rw [Nat.min_eq_right (not_lt.mp finite)]
    exact .infinite (not_lt.mp fun small => finite (h.lt_infinity.mpr (lt_lowEnd_infinity.mpr small)))

end Binary64

/-! ## Whole numbers and decimals -/

namespace NumberLiteral

open Binary64 Decimal

/-- A whole number is rounded. -/
theorem roundsTo_ofNat (n : Nat) : RoundsTo n (Binary64.ofNat n) := by
  have hv : (0 : ℚ) ≤ n := Nat.cast_nonneg n
  obtain ⟨m, rounds⟩ := exists_rounds (mul_nonneg hv cast_unitsOfOne_pos.le)
  have units : (n : ℚ) * unitsOfOne = (n * unitsOfOne : Nat) / ((1 : Nat) : ℚ) := by
    rw [Nat.cast_mul, Nat.cast_one, div_one]
  rw [Binary64.ofNat, ofRatio, nearestMagnitude_eq_min n Nat.one_pos (units ▸ rounds)]
  exact rounds.roundsTo hv

/-- A decimal is read as the magnitude that its value belongs to, unless that is too large. -/
theorem ofScientific_eq_min (negative : Bool) (n : Nat) (e : Int) : ∃ m, Rounds m (unitValue n e) ∧
    ofScientific negative n e = ofParts negative (min m infinityMagnitude) := by
  have hv : 0 ≤ unitValue n e := mul_nonneg (by positivity) cast_unitsOfOne_pos.le
  by_cases zero : n = 0 ∨ (digitCount n : Int) + e < -330
  · have small : 2 * unitValue n e ≤ 1 := by
      rcases zero with rfl | small
      · rw [unitValue, Nat.cast_zero, zero_mul, zero_mul, mul_zero]
        exact zero_le_one
      · exact (two_mul_unitValue_lt_one small).le
    have ends : lowEnd 0 = 0 ∧ highEnd 0 = 1 := by decide
    refine ⟨0, ⟨?_, ?_, fun odd => absurd odd (by decide)⟩, ?_⟩
    · rw [ends.1, Nat.cast_zero]
      exact mul_nonneg two_pos.le hv
    · rw [ends.2, Nat.cast_one]
      exact small
    · rw [Nat.zero_min]
      exact if_pos zero
  obtain ⟨n0, notSmall⟩ := not_or.mp zero
  obtain ⟨m, rounds⟩ := exists_rounds hv
  refine ⟨m, rounds, ?_⟩
  by_cases large : 310 < (digitCount n : Int) + e
  · have finite : ¬ m < infinityMagnitude := by
      intro finite
      have below := rounds.lt_infinity.mp finite
      have above := units_lt_unitValue n0 large
      have limit : (lowEnd infinityMagnitude : ℚ) ≤ 2 * units infinityMagnitude := by
        rw [lowEnd, Nat.cast_add, two_mul]
        exact add_le_add_left (units_le_units (Nat.sub_le ..)) _
      linarith
    rw [Nat.min_eq_right (not_lt.mp finite)]
    exact (if_neg zero).trans (if_pos large)
  · have value : unitValue n e = ((scaled n e).1 * unitsOfOne : Nat) / ((scaled n e).2 : ℚ) := by
      rw [Nat.cast_mul, mul_div_right_comm, scaled_value, unitValue]
    rw [ofScientific_eq_ofRatio negative n0 notSmall large, ofRatio,
      nearestMagnitude_eq_min _ (scaled_pos n e) (value ▸ rounds)]

/-- A decimal is rounded. -/
theorem roundsTo_ofScientific (n : Nat) (e : Int) : RoundsTo (n * 10 ^ e) (ofScientific false n e) := by
  obtain ⟨m, rounds, read⟩ := ofScientific_eq_min false n e
  rw [read]
  exact rounds.roundsTo (by positivity)

end NumberLiteral

end IndexedLoop
