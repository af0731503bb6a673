import IndexedLoop.Proofs.NumberTokens
import IndexedLoop.Proofs.Rounding
import Mathlib.Data.Nat.Digits.Defs

/-!
# The values of literals

A whole number in another base stands for the sum of its digits, each times a power of the base
(`NumberLiteral.IsWhole`). It is read as the number nearest to that sum, unless the sum is `2 ^ 128` or more, and
any other decimal as the number that it is rounded to (`NumberLiteral.read?_rounds`).
-/

namespace IndexedLoop

open Binary64

namespace NumberLiteral

/-! ## Digits and their values -/

/-- At least one digit in a base, each with its value. Letters may stand in either case. -/
structure Spells (base : Nat) (digits : List Char) (values : List Nat) : Prop where
  nonempty : values ≠ []
  small : ∀ v ∈ values, v < base
  lower : digits.map Char.toLower = values.map Nat.digitChar

/-- A literal is a whole number in a base other than ten, with this value. -/
def IsWhole (cs : List Char) (v : Nat) : Prop :=
  ∃ base digits values, Based cs base digits ∧ Spells base digits values ∧ v = Nat.ofDigits base values.reverse

theorem Based.base_le {cs digits : List Char} {base : Nat} (h : Based cs base digits) : base ≤ 16 := by
  cases h <;> decide

/-- A capital letter stands 32 places in front of the same letter in lower case. -/
theorem toNat_of_toLower {c d : Char} (h : c.toLower = d) :
    c.toNat = d.toNat ∨ 65 ≤ c.toNat ∧ c.toNat ≤ 90 ∧ c.toNat + 32 = d.toNat := by
  subst h
  unfold Char.toLower
  split
  · next capital =>
    have low : 65 ≤ c.toNat := UInt32.le_iff_toNat_le.mp capital.1
    have high : c.toNat ≤ 90 := UInt32.le_iff_toNat_le.mp capital.2
    have sum : (c.val + 32).toNat = (c.toNat + 32) % 2 ^ 32 := UInt32.toNat_add ..
    exact .inr ⟨low, high, by rw [Nat.mod_eq_of_lt (by omega)] at sum; exact sum.symm⟩
  · exact .inl rfl

theorem digit?_eq {base v : Nat} {c : Char} (hbase : base ≤ 16) (hv : v < base) (h : c.toLower = v.digitChar) :
    digit? base c = some v := by
  have le (a b : Char) : a ≤ b ↔ a.toNat ≤ b.toNat := UInt32.le_iff_toNat_le
  have code : ∀ v < 16, v.digitChar.toNat = if v < 10 then 48 + v else 87 + v := by decide
  have filtered {n : Nat} (e : n = v) : (some n).filter (· < base) = some v := by
    rw [e, Option.filter_some, if_pos (decide_eq_true hv)]
  have place := toNat_of_toLower h
  rw [code v (by omega)] at place
  simp only [digit?, le, Char.reduceToNat]
  split at place
  · rw [if_pos (by omega)]
    exact filtered (by omega)
  · rcases place with place | place
    · rw [if_neg (by omega), if_pos (by omega)]
      exact filtered (by omega)
    · rw [if_neg (by omega), if_neg (by omega), if_pos (by omega)]
      exact filtered (by omega)

theorem digitsFrom?_ofDigits {base : Nat} (hbase : base ≤ 16) {digits : List Char} {values : List Nat}
    (small : ∀ v ∈ values, v < base) (lower : digits.map Char.toLower = values.map Nat.digitChar) (value : Nat) :
    digitsFrom? base value digits = some (Nat.ofDigits base values.reverse + base ^ values.length * value) := by
  induction values generalizing digits value with
  | nil =>
    obtain rfl := List.map_eq_nil_iff.mp lower
    simp [digitsFrom?]
  | cons v values ih =>
    obtain ⟨c, cs, rfl, first, rest⟩ := List.map_eq_cons_iff.mp lower
    obtain ⟨hv, small⟩ := List.forall_mem_cons.mp small
    have read := ih small rest (value * base + v)
    rw [digitsFrom?, digit?_eq hbase hv first]
    refine read.trans (congrArg some ?_)
    rw [List.reverse_cons, Nat.ofDigits_append, Nat.ofDigits_singleton, List.length_reverse, List.length_cons]
    ring

theorem Spells.read {base : Nat} (hbase : base ≤ 16) {digits : List Char} {values : List Nat}
    (h : Spells base digits values) : digitsFrom? base 0 digits = some (Nat.ofDigits base values.reverse) :=
  digitsFrom?_ofDigits hbase h.small h.lower 0

theorem Spells.digits {base : Nat} (hbase : base ≤ 16) {digits : List Char} {values : List Nat}
    (h : Spells base digits values) : digits ≠ [] ∧ Digits base digits := by
  constructor
  · rintro rfl
    exact h.nonempty (List.map_eq_nil_iff.mp h.lower.symm)
  · intro c mem
    have mem : c.toLower ∈ values.map Nat.digitChar := h.lower ▸ List.mem_map_of_mem mem
    obtain ⟨v, hv, e⟩ := List.mem_map.mp mem
    rw [digit?_eq hbase (h.small v hv) e.symm]
    rfl

/-- Octal digits have values. -/
theorem spells_octal {digits : List Char} (nonempty : digits ≠ []) (octal : ∀ c ∈ digits, Lexical.isOctalDigit c = true) :
    Spells 8 digits (digits.map fun c => c.toNat - 48) := by
  have le (a b : Char) : a ≤ b ↔ a.toNat ≤ b.toNat := UInt32.le_iff_toNat_le
  have bounds (c : Char) (mem : c ∈ digits) : 48 ≤ c.toNat ∧ c.toNat ≤ 55 := by
    have := octal c mem
    simpa only [Lexical.isOctalDigit, Bool.and_eq_true, decide_eq_true_eq, le, Char.reduceToNat] using this
  refine ⟨fun e => nonempty (List.map_eq_nil_iff.mp e), ?_, ?_⟩
  · rw [List.forall_mem_map]
    intro c mem
    have := bounds c mem
    omega
  · rw [List.map_map]
    refine List.map_congr_left fun c mem => ?_
    obtain ⟨low, high⟩ := bounds c mem
    have code : ∀ n < 8, (Char.ofNat (48 + n)).toLower = n.digitChar := by decide
    have := code (c.toNat - 48) (by omega)
    rwa [show 48 + (c.toNat - 48) = c.toNat by omega, Char.ofNat_toNat] at this

/-! ## Literals -/

/-- A whole number in another base is read as its value, rounded, if that is below `2 ^ 128`. -/
theorem IsWhole.read {text : String} {v : Nat} (h : IsWhole (plain text.toList) v) :
    read? text = if v < 2 ^ 128 then some (Binary64.ofNat v) else none := by
  obtain ⟨base, digits, values, based, spells, rfl⟩ := h
  obtain ⟨nonempty, valid⟩ := spells.digits based.base_le
  rw [based.read nonempty, radix?_eq nonempty valid (spells.read based.base_le)]

/-- A decimal that is no whole number in another base is read as its value, rounded. -/
theorem IsDecimal.read_other {text : String} {d : Decimal} (h : IsDecimal (plain text.toList) d)
    (other : ¬ ∃ v, IsWhole (plain text.toList) v) : read? text = some (ofScientific false d.digits d.exponent) := by
  refine h.read_or_octal.resolve_left fun ⟨digits, nonempty, e, octal⟩ => other ?_
  exact ⟨_, 8, digits, _, e ▸ .legacyOctal octal, spells_octal nonempty octal, rfl⟩

/-- Whole numbers below `2 ^ 128` are finite. -/
theorem nearest_ofNat {v : Nat} (h : v < 2 ^ 128) :
    (Binary64.ofNat v).negative = false ∧ (Binary64.ofNat v).Nearest v := by
  have limit : (v : ℚ) < 2 ^ 1024 - 2 ^ 970 := by
    have small : (v : ℚ) < 2 ^ 128 := by exact_mod_cast h
    have power : (2 : ℚ) ^ 1024 = 2 ^ 54 * 2 ^ 970 := by rw [← pow_add]
    have one : (2 : ℚ) ^ 128 ≤ 2 ^ 970 := pow_le_pow_right₀ one_le_two (by decide)
    have two : (2 : ℚ) ≤ 2 ^ 54 := by norm_num
    rw [power]
    generalize (2 : ℚ) ^ 970 = a at one ⊢
    nlinarith
  generalize hx : Binary64.ofNat v = x
  have rounds : RoundsTo v x := hx ▸ roundsTo_ofNat v
  cases rounds with
  | finite _ positive nearest => exact ⟨positive, nearest⟩
  | infinite large => exact absurd limit (not_lt.mpr large)

/-- What a literal is read as, with its separators dropped: a whole number in another base is the number nearest to
its value, but one of `2 ^ 128` or more is not read, and any other decimal is rounded, to infinity if it is too
large. -/
theorem read?_rounds (text : String) :
    (∀ v, IsWhole (plain text.toList) v →
      (v < 2 ^ 128 → ∃ x, read? text = some x ∧ x.negative = false ∧ x.Nearest v) ∧
      (2 ^ 128 ≤ v → read? text = none)) ∧
    (∀ d, IsDecimal (plain text.toList) d → (¬ ∃ v, IsWhole (plain text.toList) v) →
      ∃ x, read? text = some x ∧ RoundsTo (d.digits * 10 ^ d.exponent) x) := by
  refine ⟨fun v whole => ⟨fun small => ?_, fun large => ?_⟩, fun d decimal other => ?_⟩
  · exact ⟨_, by rw [whole.read, if_pos small], nearest_ofNat small⟩
  · rw [whole.read, if_neg (not_lt.mpr large)]
  · exact ⟨_, decimal.read_other other, roundsTo_ofScientific ..⟩

/-- A whole number in the middle between two numbers, one that is too large, and a decimal with a zero in front. -/
theorem read?_rounds_examples :
    (∃ x, read? "0X20_0000_0000_0001" = some x ∧ x.negative = false ∧ x.Nearest (2 ^ 53 + 1 : Nat)) ∧
    read? "0o4_0000000000_0000000000_0000000000_0000000000_00" = none ∧
    (∃ x, read? "08_5.25E-1" = some x ∧ RoundsTo ((8525 : Nat) * 10 ^ (-3 : Int)) x) := by
  refine ⟨?_, ?_, ?_⟩
  · have whole : IsWhole (plain "0X20_0000_0000_0001".toList) (2 ^ 53 + 1) :=
      ⟨16, _, [2, 0, 0, 0, 0, 0, 0, 0, 0, 0, 0, 0, 0, 1], .hexadecimal (.inr rfl) _,
        ⟨by decide, by decide, by decide⟩, by decide⟩
    exact ((read?_rounds _).1 _ whole).1 (by decide)
  · have whole : IsWhole (plain "0o4_0000000000_0000000000_0000000000_0000000000_00".toList) (2 ^ 128) :=
      ⟨8, _, 4 :: List.replicate 42 0, .octal (.inl rfl) _, ⟨by decide, by decide, by decide⟩, by decide⟩
    exact ((read?_rounds _).1 _ whole).2 le_rfl
  · have text : plain "08_5.25E-1".toList = ['0', '8', '5'] ++ '.' :: (['2', '5'] ++ ['E', '-', '1']) := by decide
    have exponent : IsExponent ['E', '-', '1'] (-1) :=
      @IsExponent.some 'E' ['-'] ['1'] (.inr rfl) (.inr (.inr rfl)) (by decide) (by decide)
    have decimal : IsDecimal (plain "08_5.25E-1".toList) ⟨8525, -3⟩ :=
      text ▸ .fraction (.inl (by decide)) (by decide) exponent
    refine (read?_rounds _).2 _ decimal ?_
    rintro ⟨v, base, digits, values, based, -, -⟩
    rw [text] at based
    cases based with
    | hexadecimal h | octal h | binary h => exact absurd h (by decide)
    | legacyOctal octal => exact absurd (octal '8' (by decide)) (by decide)

end NumberLiteral

end IndexedLoop
