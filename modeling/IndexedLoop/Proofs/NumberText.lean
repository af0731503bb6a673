import IndexedLoop.Proofs.NumberTokens
import IndexedLoop.Proofs.Rounding

/-!
# The text of a number

Of all decimals that are read as a number, its shortest one has the fewest digits
(`Decimal.digitCount_shortest_le`): a decimal with so many digits that is read back leaves a point that is read back
on the grid of all decimals with so many digits, and the search meets no finer grid before that one. The text of a
number is read as the number (`NumberLiteral.read?_format`), and it is no literal in another base.
-/

namespace IndexedLoop

open Binary64

/-! ## The fewest digits -/

namespace Decimal

/-- A value between the number and one that belongs to it belongs to it too. -/
theorem rounds_between {m : Nat} (hm : 0 < m) {v w : ℚ} (h : Rounds m v)
    (between : v ≤ w ∧ w ≤ units m ∨ (units m : ℚ) ≤ w ∧ w ≤ v) : Rounds m w := by
  have below : (units (m - 1) : ℚ) < units m := by
    exact_mod_cast NumberLiteral.units_strictMono (by omega : m - 1 < m)
  have above : (units m : ℚ) < units (m + 1) := by
    exact_mod_cast NumberLiteral.units_strictMono (Nat.lt_add_one m)
  have low : (lowEnd m : ℚ) < 2 * units m := by
    rw [lowEnd, Nat.cast_add]
    linarith
  have high : 2 * (units m : ℚ) < highEnd m := by
    rw [highEnd, Nat.cast_add]
    linarith
  have start := h.low
  have stop := h.high
  rcases between with ⟨left, right⟩ | ⟨left, right⟩
  · refine ⟨by linarith, by linarith, fun odd => ?_⟩
    have := (h.odd odd).1
    exact ⟨by linarith, by linarith⟩
  · refine ⟨by linarith, by linarith, fun odd => ?_⟩
    have := (h.odd odd).2
    exact ⟨by linarith, by linarith⟩

/-- The next power of ten is above the number. -/
theorem lt_leadingExponent {u : Nat} (hu : 0 < u) :
    (u : ℚ) < 10 ^ (leadingExponent u + 1) * unitsOfOne := by
  have one := unitsOfOne_pos
  unfold leadingExponent
  split
  · rw [sub_add_cancel, zpow_natCast]
    exact_mod_cast (Nat.div_lt_iff_lt_mul one).mp (lt_ten_pow_digitCount (u / unitsOfOne))
  · next small =>
    have ceil := Nat.div_mul_le_self (unitsOfOne + u - 1) u
    have two : 2 ≤ (unitsOfOne + u - 1) / u := (Nat.le_div_iff_mul_le hu).mpr (by omega)
    generalize (unitsOfOne + u - 1) / u = q at ceil two ⊢
    obtain ⟨q, rfl⟩ : ∃ p, q = p + 1 := ⟨q - 1, by omega⟩
    have count : 1 ≤ digitCount q := Nat.length_toDigits_pos
    have digits := Nat.mul_le_mul_right u (ten_pow_digitCount_le (show 0 < q by omega))
    rw [Nat.add_one_sub_one, show -(digitCount q : Int) + 1 = -((digitCount q - 1 : Nat) : Int) by omega, zpow_neg,
      zpow_natCast, lt_inv_mul_iff₀ (by positivity)]
    have : 10 ^ (digitCount q - 1) * u < unitsOfOne := by
      rw [Nat.add_mul] at ceil
      omega
    exact_mod_cast this

theorem unitValue_strictMono (e : Int) : StrictMono (unitValue · e) := fun n k h => by
  have steps : (n : ℚ) * 10 ^ e < k * 10 ^ e := mul_lt_mul_of_pos_right (Nat.cast_lt.mpr h) (by positivity)
  exact mul_lt_mul_of_pos_right steps cast_unitsOfOne_pos

theorem unitValue_le {n k : Nat} (h : n ≤ k) (e : Int) : unitValue n e ≤ unitValue k e :=
  (unitValue_strictMono e).monotone h

/-- If a point of a grid reads back, then so does one of the two next to the number. -/
theorem onGrid_isSome_of_rounds (tie : Tie) {m : Nat} (hm : 0 < m) {n : Nat} {e : Int}
    (h : Rounds m (unitValue n e)) : (onGrid tie m e).isSome := by
  obtain ⟨left, right⟩ := stepsBelow_bounds m e
  rw [onGrid_isSome_iff, readsBack_iff, readsBack_iff]
  rcases Nat.lt_or_ge (stepsBelow m e) n with lt | le
  · exact .inr (rounds_between hm h (.inr ⟨right.le, unitValue_le lt e⟩))
  · exact .inl (rounds_between hm h (.inl ⟨unitValue_le le e, left⟩))

/-- A power of ten on a grid. -/
theorem unitValue_ten_pow (k : Nat) (e : Int) : unitValue (10 ^ k) e = 10 ^ (e + k) * unitsOfOne := by
  rw [unitValue, zpow_add₀ (by norm_num), zpow_natCast, Nat.cast_pow, Nat.cast_ofNat, mul_comm (10 ^ k)]

/-- A decimal that reads back leaves a point that reads back on the grid of the decimals with as many digits between
the two powers of ten around the number: itself, or one of these two. -/
theorem onGrid_digitCount (tie : Tie) {m : Nat} (hm : 0 < m) {n : Nat} (hn : 0 < n) {e : Int}
    (h : Rounds m (unitValue n e)) {k : Nat} (hk : digitCount n = k + 1) :
    (onGrid tie m (leadingExponent (units m) - k)).isSome := by
  have ten : (1 : ℚ) < 10 := by norm_num
  have one := cast_unitsOfOne_pos
  have first := leadingExponent_le (units_pos hm)
  have last := lt_leadingExponent (units_pos hm)
  generalize leadingExponent (units m) = lead at first last ⊢
  have low : 10 ^ (e + k) * (unitsOfOne : ℚ) ≤ unitValue n e := by
    have := ten_pow_digitCount_le hn
    rw [hk, Nat.add_one_sub_one] at this
    rw [← unitValue_ten_pow]
    exact unitValue_le this e
  have high : unitValue n e < 10 ^ (e + (k + 1 : Nat)) * unitsOfOne := by
    rw [← unitValue_ten_pow]
    exact unitValue_strictMono e (hk ▸ lt_ten_pow_digitCount n)
  by_cases below : unitValue n e < 10 ^ lead * unitsOfOne
  · refine onGrid_isSome_of_rounds tie hm (n := 10 ^ k) (rounds_between hm h (.inl ?_))
    rw [unitValue_ten_pow, sub_add_cancel]
    exact ⟨below.le, first⟩
  by_cases above : 10 ^ (lead + 1) * unitsOfOne ≤ unitValue n e
  · refine onGrid_isSome_of_rounds tie hm (n := 10 ^ (k + 1)) (rounds_between hm h (.inr ?_))
    rw [unitValue_ten_pow, show lead - k + (k + 1 : Nat) = lead + 1 by omega]
    exact ⟨last.le, above⟩
  · have lower : e + k < lead + 1 := by
      refine (zpow_lt_zpow_iff_right₀ ten).mp (lt_of_mul_lt_mul_right (low.trans_lt ?_) one.le)
      exact not_le.mp above
    have upper : lead < e + (k + 1 : Nat) := by
      refine (zpow_lt_zpow_iff_right₀ ten).mp (lt_of_mul_lt_mul_right (lt_of_le_of_lt ?_ high) one.le)
      exact not_lt.mp below
    obtain rfl : e = lead - k := by omega
    exact onGrid_isSome_of_rounds tie hm h

/-- The search stops at the first grid that has a point. -/
theorem search_le (tie : Tie) {m finer k : Nat} {e : Int} (h : (onGrid tie m (e - k)).isSome) (le : k ≤ finer) :
    ∃ j ≤ k, ∃ d, search tie m finer e = ⟨d, e - j⟩ ∧ onGrid tie m (e - j) = some d := by
  induction finer generalizing k e with
  | zero =>
    obtain rfl : k = 0 := Nat.le_zero.mp le
    rw [Nat.cast_zero, sub_zero] at h
    obtain ⟨d, hd⟩ := Option.isSome_iff_exists.mp h
    refine ⟨0, le_rfl, d, ?_, ?_⟩
    · simp [search, hd]
    · simpa using hd
  | succ finer ih =>
    rw [search]
    split
    · next d hd => exact ⟨0, Nat.zero_le _, d, by simp, by simpa using hd⟩
    · next none =>
      cases k with
      | zero => simp [none] at h
      | succ k =>
        rw [show e - (k + 1 : Nat) = e - 1 - k by omega] at h
        obtain ⟨j, hj, d, found, grid⟩ := ih h (by omega)
        rw [show e - 1 - j = e - (j + 1 : Nat) by omega] at found grid
        exact ⟨j + 1, by omega, d, found, grid⟩

/-- The point taken is one of the two next to the number. -/
theorem onGrid_le {tie : Tie} {m d : Nat} {e : Int} (h : onGrid tie m e = some d) : d ≤ stepsBelow m e + 1 := by
  simp only [onGrid, ← stepsBelow.eq_1] at h
  split at h
  · split at h
    all_goals
      cases h
      omega
  all_goals
    cases h
  all_goals omega

theorem digits_trim_le (fuel : Nat) (d : Decimal) : (trim fuel d).digits ≤ d.digits := by
  induction fuel generalizing d with
  | zero => exact le_rfl
  | succ fuel ih =>
    rw [trim]
    split
    · exact (ih _).trans (Nat.div_le_self ..)
    · exact le_rfl

/-- All zeros behind a one are dropped. -/
theorem digits_trim_ten_pow {k fuel : Nat} (h : k ≤ fuel) (e : Int) : (trim fuel ⟨10 ^ k, e⟩).digits = 1 := by
  induction k generalizing fuel e with
  | zero => cases fuel <;> rfl
  | succ k ih =>
    obtain ⟨fuel, rfl⟩ : ∃ more, fuel = more + 1 := ⟨fuel - 1, by omega⟩
    have next : 10 ^ (k + 1) / 10 = 10 ^ k := Nat.mul_div_cancel _ (by decide)
    rw [trim, if_pos ⟨Nat.mul_mod_left .., by positivity⟩, next]
    exact ih (by omega) _

/-- A number has at most as many steps on a grid as its digits up to that grid can count. -/
theorem stepsBelow_lt {m : Nat} (hm : 0 < m) (j : Nat) :
    stepsBelow m (leadingExponent (units m) - j) < 10 ^ (j + 1) := by
  refine (unitValue_strictMono _).lt_iff_lt.mp ((stepsBelow_bounds m _).1.trans_lt ?_)
  rw [unitValue_ten_pow, show leadingExponent (units m) - j + (j + 1 : Nat) = leadingExponent (units m) + 1 by omega]
  exact lt_leadingExponent (units_pos hm)

/-- No decimal that reads back has fewer digits than the shortest one. -/
theorem digitCount_shortest_le (tie : Tie) {m : Nat} (hm : 0 < m) {n : Nat} {e : Int}
    (h : Rounds m (unitValue n e)) : digitCount (shortest tie m).digits ≤ digitCount n := by
  have some : 0 < digitCount n := Nat.length_toDigits_pos
  obtain ⟨k, hk⟩ : ∃ k, digitCount n = k + 1 := ⟨digitCount n - 1, by omega⟩
  have grid : (onGrid tie m (leadingExponent (units m) - (min k 16 : Nat))).isSome := by
    rcases Nat.le_total k 16 with le | le
    · rw [Nat.min_eq_left le]
      exact onGrid_digitCount tie hm (digits_pos hm h) h hk
    · rw [Nat.min_eq_right le]
      exact onGrid_isSome_last tie hm
  obtain ⟨j, hj, d, found, taken⟩ := search_le tie grid (Nat.min_le_right ..)
  have le : d ≤ 10 ^ (j + 1) := (onGrid_le taken).trans (stepsBelow_lt hm j)
  have power : 10 ^ (j + 1) ≤ 10 ^ (k + 1) := Nat.pow_le_pow_right (by decide) (by omega)
  rw [hk]
  refine (Nat.length_toDigits_le_iff (by decide) (Nat.succ_pos k)).mpr ?_
  rw [shortest, found]
  rcases Nat.lt_or_eq_of_le le with lt | rfl
  · exact (digits_trim_le ..).trans_lt (lt.trans_le power)
  · -- rounding up has carried into a new digit, and all behind it are zeros
    have count := (Nat.pow_lt_pow_iff_right (by decide)).mp (lt_ten_pow_digitCount (10 ^ (j + 1)))
    rw [digits_trim_ten_pow count.le]
    exact Nat.one_lt_pow (Nat.succ_ne_zero k) (by decide)

end Decimal

/-! ## Reading the text of a number -/

namespace NumberLiteral

open Decimal

theorem Parts.isDecimal (p : Parts) : IsDecimal p.text ⟨p.digits, -(p.fraction.length : Int)⟩ := by
  rw [Parts.text, Parts.digits]
  split
  · next none =>
    have := IsDecimal.whole p.some p.whole_digits .none
    rw [List.append_nil] at this
    rwa [none, List.append_nil, List.length_nil, Nat.cast_zero, neg_zero]
  · have digits := List.forall_mem_append.mpr ⟨p.whole_digits, p.fraction_digits⟩
    have := IsDecimal.fraction (.inl p.some) digits .none
    rwa [List.append_nil, zero_sub] at this

/-- A number without an exponent and without a zero in front of another digit, so that it is no whole number in
another base. -/
structure Positional (text : List Char) : Prop where
  no_exponent : ∀ c ∈ text, c ≠ 'e' ∧ c ≠ 'E'
  lead : ∀ sign c rest, sign = [] ∨ sign = ['-'] → text = sign ++ '0' :: c :: rest → c.isDigit = false
  not_based : ∀ base digits, digits ≠ [] → ¬ Based (plain text) base digits

/-- A finite number is its sign and its parts. -/
structure Writes (x : Binary64) (p : Parts) : Prop where
  text : (numberStyle.format x).toList = signText x.negative ++ p.text
  zero : x.magnitude = 0 → p = zeroParts
  rounds : 0 < x.magnitude → Rounds x.magnitude (unitValue p.digits (-(p.fraction.length : Int)))

theorem exists_writes {x : Binary64} (finite : x.isFinite = true) : ∃ p, Writes x p := by
  obtain ⟨p, parts, zero, rounds⟩ := magnitudeText_parts x.magnitude
  refine ⟨p, ?_, zero, rounds⟩
  rw [format_finite _ finite, parts, String.toList_ofList]

/-- The text of a number is made of digits, a point and a sign. -/
theorem Writes.ne_of_mem {x : Binary64} {p : Parts} (h : Writes x p) {c d : Char}
    (mem : c ∈ (numberStyle.format x).toList) (other : d.isDigit = false ∧ d ≠ '.' ∧ d ≠ '-') : c ≠ d := by
  rw [h.text, List.mem_append] at mem
  rintro rfl
  rcases mem with sign | mem
  · have minus : ∀ negative, ∀ c ∈ signText negative, c = '-' := by decide
    exact other.2.2 (minus _ c sign)
  · rcases Parts.mem_text mem with digit | point
    · exact absurd digit (by rw [other.1]; exact Bool.false_ne_true)
    · exact other.2.1 point

theorem Writes.plain {x : Binary64} {p : Parts} (h : Writes x p) :
    plain (numberStyle.format x).toList = signText x.negative ++ p.text := by
  rw [← h.text, NumberLiteral.plain, List.filter_eq_self]
  intro c mem
  exact decide_eq_true (h.ne_of_mem mem (by decide))

/-- A whole number in another base starts with a zero that no point follows. -/
theorem Based.second {cs digits : List Char} {base : Nat} (h : Based cs base digits) (some : digits ≠ []) :
    ∃ c rest, cs = '0' :: c :: rest ∧ c ≠ '.' := by
  cases h with
  | hexadecimal h | octal h | binary h => exact ⟨_, _, rfl, by rcases h with rfl | rfl <;> decide⟩
  | legacyOctal octal =>
    obtain ⟨c, rest, rfl⟩ := List.exists_cons_of_ne_nil some
    refine ⟨c, rest, rfl, ?_⟩
    rintro rfl
    exact absurd (octal '.' (List.mem_cons_self ..)) (by decide)

/-- Only a point follows a zero that the text of a number starts with. -/
theorem Writes.lead {x : Binary64} {p : Parts} (h : Writes x p) {sign rest : List Char} {c : Char}
    (hsign : sign = [] ∨ sign = ['-']) (text : (numberStyle.format x).toList = sign ++ '0' :: c :: rest) : c = '.' := by
  obtain ⟨d, more, e, digit, zero⟩ := p.exists_text_eq
  have minus : d ≠ '-' := by
    rintro rfl
    exact absurd digit (by decide)
  rw [h.text, e, signText] at text
  have same : d :: more = '0' :: c :: rest := by
    rcases hsign with rfl | rfl
    · split at text
      · cases text
      · exact text
    · split at text
      · exact (List.cons.inj text).2
      · exact absurd (List.cons.inj text).1 minus
  obtain ⟨rfl, rfl⟩ := List.cons.inj same
  rcases zero rfl with none | ⟨_, point⟩
  · cases none
  · exact (List.cons.inj point).1

/-- The text of a number is no whole number in another base. -/
theorem Writes.not_based {x : Binary64} {p : Parts} (h : Writes x p) {base : Nat} {digits : List Char}
    (some : digits ≠ []) : ¬ Based (NumberLiteral.plain (numberStyle.format x).toList) base digits := by
  intro based
  obtain ⟨c, rest, text, other⟩ := based.second some
  rw [h.plain, ← h.text] at text
  exact other (h.lead (.inl rfl) text)

theorem Writes.read {x : Binary64} {p : Parts} (h : Writes x p) :
    read? (numberStyle.format x) = some (ofScientific x.negative p.digits (-(p.fraction.length : Int))) := by
  have text := h.plain
  cases negative : x.negative with
  | true =>
    rw [negative] at text
    rw [← p.isDecimal.signed_minus]
    unfold read?
    rw [← NumberLiteral.plain, text]
    rfl
  | false =>
    rw [negative] at text
    have text : NumberLiteral.plain (numberStyle.format x).toList = p.text := text
    refine (text ▸ p.isDecimal).read_or_octal.resolve_left fun ⟨digits, nonempty, e, octal⟩ => ?_
    have based : Based (NumberLiteral.plain (numberStyle.format x).toList) 8 digits := e ▸ .legacyOctal octal
    exact h.not_based nonempty based

/-- The text of a finite number is read as the number. -/
theorem Writes.read_eq {x : Binary64} {p : Parts} (finite : x.isFinite = true) (h : Writes x p) :
    read? (numberStyle.format x) = some x := by
  rw [h.read]
  rcases Nat.eq_zero_or_pos x.magnitude with zero | pos
  · have digits : p.digits = 0 := by
      rw [h.zero zero]
      decide
    conv => rhs; rw [← ofParts_eq x, zero]
    exact congrArg some (if_pos (.inl digits))
  · rw [ofScientific_eq pos (of_decide_eq_true finite) (h.rounds pos), ofParts_eq]

/-- The words for infinity are read as infinity. -/
theorem read?_format_infinite {x : Binary64} (infinite : x.isInfinite = true) :
    read? (numberStyle.format x) = some x := by
  have magnitude : x.magnitude = infinityMagnitude := of_decide_eq_true infinite
  have number : x.isNaN = false := decide_eq_false (by omega)
  have words : ∀ negative, read? ((if negative then "-" else "") ++ numberStyle.infinity) =
      some (infinity negative) := by decide +kernel
  rw [NumberStyle.format, number]
  simp only [infinite, Bool.false_eq_true, ↓reduceIte, words, infinity, ← magnitude, ofParts_eq]

theorem Writes.positional {x : Binary64} {p : Parts} (h : Writes x p) : Positional (numberStyle.format x).toList where
  no_exponent c mem := ⟨h.ne_of_mem mem (by decide), h.ne_of_mem mem (by decide)⟩
  lead sign c rest hsign text := by
    rw [h.lead hsign text]
    decide
  not_based base digits nonempty := h.not_based nonempty

/-- A finite number other than zero is written with the digits of its shortest decimal. -/
theorem format_shortest {x : Binary64} (finite : x.isFinite = true) (pos : 0 < x.magnitude) :
    (numberStyle.format x).toList =
      signText x.negative ++ ((shortest numberStyle.tie x.magnitude).positionalText false).toList := by
  rw [format_finite _ finite, NumberStyle.magnitudeText, if_neg pos.ne']
  rfl

/-- A decimal that is read as a finite number other than zero rounds to it. -/
theorem rounds_of_ofScientific {x : Binary64} (finite : x.isFinite = true) {d : Decimal}
    (h : ofScientific x.negative d.digits d.exponent = x) : Rounds x.magnitude (unitValue d.digits d.exponent) := by
  obtain ⟨m, rounds, read⟩ := ofScientific_eq_min x.negative d.digits d.exponent
  have magnitude : x.magnitude = min m infinityMagnitude := by
    conv => lhs; rw [← h, read]
    exact magnitude_ofParts _ (Nat.min_le_right ..)
  have := of_decide_eq_true finite
  obtain rfl : x.magnitude = m := by omega
  exact rounds

/-- The text of a number is read as the number, whatever its sign and size, and the text of what is no number as no
number. A finite number is written without an exponent, and if it is not zero then with no more digits than any
decimal has that is read as the number. -/
theorem read?_format (x : Binary64) :
    (x.isNaN = false → read? (numberStyle.format x) = some x) ∧
    (x.isNaN = true → ∃ y, read? (numberStyle.format x) = some y ∧ y.isNaN = true) ∧
    (x.isFinite = true → Positional (numberStyle.format x).toList) ∧
    (x.isFinite = true → 0 < x.magnitude →
      let d := shortest numberStyle.tie x.magnitude
      (numberStyle.format x).toList = signText x.negative ++ (d.positionalText false).toList ∧
      ∀ other : Decimal, ofScientific x.negative other.digits other.exponent = x →
        digitCount d.digits ≤ digitCount other.digits) := by
  refine ⟨fun number => ?_, fun noNumber => ?_, fun finite => ?_, fun finite pos => ?_⟩
  · by_cases finite : x.isFinite = true
    · obtain ⟨p, writes⟩ := exists_writes finite
      exact writes.read_eq finite
    · refine read?_format_infinite (decide_eq_true ?_)
      have := of_decide_eq_false number
      have := of_decide_eq_false (Bool.eq_false_iff.mpr finite)
      omega
  · refine ⟨nan false, ?_, by decide +kernel⟩
    rw [NumberStyle.format, if_pos noNumber]
    decide +kernel
  · obtain ⟨p, writes⟩ := exists_writes finite
    exact writes.positional
  · refine ⟨format_shortest finite pos, fun other read => ?_⟩
    exact digitCount_shortest_le numberStyle.tie pos (rounds_of_ofScientific finite read)

/-- The negative zero, the least number below zero, infinity and no number. -/
theorem read?_format_examples :
    read? (numberStyle.format (zero true)) = some (zero true) ∧
    read? (numberStyle.format (ofParts true 1)) = some (ofParts true 1) ∧
    read? (numberStyle.format (infinity true)) = some (infinity true) ∧
    (∃ y, read? (numberStyle.format (nan true)) = some y ∧ y.isNaN = true) ∧
    Positional (numberStyle.format (ofParts true 1)).toList ∧
    digitCount (shortest numberStyle.tie (ofParts true 1).magnitude).digits ≤ digitCount 3 := by
  refine ⟨?_, ?_, ?_, ?_, ?_, ?_⟩
  · exact (read?_format _).1 (by decide +kernel)
  · exact (read?_format _).1 (by decide +kernel)
  · exact (read?_format _).1 (by decide +kernel)
  · exact (read?_format _).2.1 (by decide +kernel)
  · exact (read?_format _).2.2.1 (by decide +kernel)
  · refine ((read?_format _).2.2.2 (by decide +kernel) (by decide +kernel)).2 ⟨3, -324⟩ ?_
    decide +kernel

end NumberLiteral

end IndexedLoop
