import IndexedLoop.Proofs.Numerals
import IndexedLoop.Proofs.SexprText
import IndexedLoop.Tree.Dump

/-!
# Numbers in a dump

The text of a finite number in a dump is a sign or none, digits with a point, and an exponent or none
(`NumberLiteral.Shown`). It is read as the number (`NumberLiteral.decimal?_magnitudeText`), so different finite
numbers have different texts (`NumberLiteral.format_injective`), and it cannot be taken for anything but a number
(`NumberLiteral.format_wellFormed`).
-/

namespace IndexedLoop

namespace NumberLiteral

open Binary64 Decimal

/-- Digits with a point behind the first one. -/
def leadParts (lead : Char) (rest : List Char) (digits : ∀ c ∈ lead :: rest, c.isDigit = true)
    (first : lead ≠ '0') : Parts where
  whole := [lead]
  fraction := rest
  some := by simp
  whole_digits := fun c hc => digits c (List.mem_cons.mpr (.inl (List.mem_singleton.mp hc)))
  fraction_digits := fun c hc => digits c (List.mem_cons_of_mem lead hc)
  lead := .inr (by simpa using first)

theorem exponent?_toString (e : Int) : exponent? ('e' :: (toString e).toList) = some e := by
  have digits (n : Nat) : digitsFrom? 10 0 (toString n).toList = some n := by
    rw [Nat.toString_eq_repr, Nat.toList_repr, digitsFrom?_eq fun c => isDigit_toDigits, Nat.ofDigitChars_ten_toDigits]
  have first (n : Nat) : ∃ d rest, (toString n).toList = d :: rest ∧ d.isDigit = true := by
    rw [Nat.toString_eq_repr, Nat.toList_repr]
    obtain ⟨d, rest, eq⟩ := List.exists_cons_of_ne_nil (Nat.toDigits_ne_nil (n := n) (b := 10))
    exact ⟨d, rest, eq, isDigit_toDigits (n := n) (by simp [eq])⟩
  cases e with
  | ofNat n =>
    obtain ⟨d, rest, eq, digit⟩ := first n
    have number := digits n
    rw [show toString (Int.ofNat n) = toString n from rfl]
    rw [eq] at number ⊢
    have plus : d ≠ '+' := Sexpr.ne_of_class digit rfl
    have minus : d ≠ '-' := Sexpr.ne_of_class digit rfl
    simp [exponent?, plus, minus, number]
  | negSucc n =>
    obtain ⟨d, rest, eq, -⟩ := first (n + 1)
    have number := digits (n + 1)
    rw [show toString (Int.negSucc n) = "-" ++ toString (n + 1) from rfl, String.toList_append,
      show "-".toList = ['-'] from rfl, List.singleton_append]
    simp only [exponent?, number]
    rw [eq]
    simp [Int.negSucc_eq]

/-- The text of a number in a dump: digits with a point, and an exponent or none. -/
structure Shown (text : List Char) (digits : Nat) (exponent : Int) where
  parts : Parts
  tail : List Char
  shift : Int
  text_eq : text = parts.text ++ tail
  stop : ∀ c ∈ tail.head?, c.isDigit = false ∧ c ≠ '.'
  reads : exponent? tail = some shift
  chars : ∀ c ∈ tail, Sexpr.numberChar c = true
  value : unitValue parts.digits (shift - parts.fraction.length) = unitValue digits exponent

theorem Shown.decimal {text : List Char} {digits : Nat} {exponent : Int} (h : Shown text digits exponent) {m : Nat}
    (hm : 0 < m) (finite : m < infinityMagnitude) (rounds : Rounds m (unitValue digits exponent)) :
    decimal? false text = some (ofParts false m) := by
  rw [h.text_eq, decimal?_append h.parts h.tail h.stop h.reads, ofScientific_eq hm finite (h.value ▸ rounds)]

theorem Shown.wellFormed {text : List Char} {digits : Nat} {exponent : Int} (h : Shown text digits exponent) :
    (∃ c ∈ text.head?, c.isDigit = true) ∧ ∀ c ∈ text, Sexpr.numberChar c = true := by
  obtain ⟨d, rest, text, digit, -⟩ := h.parts.exists_text_eq
  refine ⟨⟨d, by simp [h.text_eq, text], digit⟩, fun c hc => ?_⟩
  rw [h.text_eq] at hc
  rcases List.mem_append.mp hc with hc | hc
  · rcases h.parts.mem_text hc with digit | rfl
    · simp [Sexpr.numberChar, Sexpr.numberStart, digit]
    · rfl
  · exact h.chars c hc

theorem numberChar_toString {e : Int} {c : Char} (h : c ∈ (toString e).toList) : Sexpr.numberChar c = true := by
  have digit {n : Nat} (h : c ∈ (toString n).toList) : Sexpr.numberChar c = true := by
    simp [Sexpr.numberChar, Sexpr.numberStart, Sexpr.isDigit_of_mem_toString h]
  cases e with
  | ofNat n => exact digit h
  | negSucc n =>
    rw [show toString (Int.negSucc n) = "-" ++ toString (n + 1) from rfl, String.toList_append] at h
    rcases List.mem_append.mp h with h | h
    · obtain rfl := List.mem_singleton.mp h
      rfl
    · exact digit h

theorem shown_positional {d : Decimal} (hd : 0 < d.digits) :
    Nonempty (Shown (d.positionalText true).toList d.digits d.exponent) := by
  obtain ⟨p, e, value⟩ := positionalText_parts true hd
  exact ⟨p, [], 0, by simp [e], by simp, rfl, by simp, by simpa using value⟩

theorem shown_scientific {d : Decimal} (hd : 0 < d.digits) :
    Nonempty (Shown d.scientificText.toList d.digits d.exponent) := by
  obtain ⟨lead, rest, eq⟩ := List.exists_cons_of_ne_nil (Nat.toDigits_ne_nil (n := d.digits) (b := 10))
  have digits : ∀ c ∈ lead :: rest, c.isDigit = true := fun c hc => isDigit_toDigits (n := d.digits) (by rwa [eq])
  have first : lead ≠ '0' := by
    have := head?_toDigits_ne_zero hd
    simpa [eq] using this
  refine ⟨leadParts lead rest digits first, 'e' :: (toString ((rest.length : Int) + d.exponent)).toList,
    rest.length + d.exponent, ?_, by simp, exponent?_toString _, ?_, ?_⟩
  · have text : d.scientificText = String.ofList (lead :: if rest.isEmpty then [] else '.' :: rest) ++ "e" ++
        toString ((rest.length : Int) + d.exponent) := by
      rw [scientificText, eq]
      rfl
    rw [text]
    by_cases none : rest = [] <;> simp [leadParts, Parts.text, none]
  · rintro c (_ | ⟨_, hc⟩)
    · rfl
    · exact numberChar_toString hc
  · rw [leadParts, Parts.digits, List.singleton_append, ← eq, Nat.ofDigitChars_ten_toDigits, add_sub_cancel_left]

/-- The text of a number in a dump shows the shortest decimal. -/
theorem shown_magnitudeText {m : Nat} (hm : 0 < m) :
    Nonempty (Shown (dumpNumberStyle.magnitudeText m).toList (shortest .toEven m).digits
      (shortest .toEven m).exponent) := by
  have digits := digits_pos hm (shortest_rounds .toEven hm)
  rw [NumberStyle.magnitudeText, if_neg (Nat.pos_iff_ne_zero.mp hm)]
  by_cases positional : dumpNumberStyle.positional ((digitCount (shortest .toEven m).digits : Int) - 1 +
      (shortest .toEven m).exponent) = true
  · rw [show dumpNumberStyle.tie = .toEven from rfl, if_pos positional]
    exact shown_positional digits
  · rw [show dumpNumberStyle.tie = .toEven from rfl, if_neg positional]
    exact shown_scientific digits

/-- The text of a magnitude in a dump is read as the magnitude. -/
theorem decimal?_magnitudeText {m : Nat} (finite : m < infinityMagnitude) :
    decimal? false (dumpNumberStyle.magnitudeText m).toList = some (ofParts false m) := by
  rcases Nat.eq_zero_or_pos m with rfl | hm
  · decide +kernel
  · obtain ⟨shown⟩ := shown_magnitudeText hm
    exact shown.decimal hm finite (shortest_rounds .toEven hm)

theorem magnitudeText_wellFormed (m : Nat) :
    (∃ c ∈ (dumpNumberStyle.magnitudeText m).toList.head?, c.isDigit = true) ∧
      ∀ c ∈ (dumpNumberStyle.magnitudeText m).toList, Sexpr.numberChar c = true := by
  rcases Nat.eq_zero_or_pos m with rfl | hm
  · exact ⟨⟨'0', by decide +kernel, rfl⟩, by decide +kernel⟩
  · obtain ⟨shown⟩ := shown_magnitudeText hm
    exact shown.wellFormed

theorem format_wellFormed {x : Binary64} (finite : x.isFinite = true) :
    (Sexpr.number (dumpNumberStyle.format x)).WellFormed := by
  obtain ⟨⟨c, first, digit⟩, chars⟩ := magnitudeText_wellFormed x.magnitude
  rw [Sexpr.WellFormed, format_finite _ finite]
  cases x.negative with
  | true =>
    refine ⟨⟨'-', rfl, rfl⟩, fun d hd => ?_⟩
    rcases List.mem_cons.mp hd with rfl | hd
    · rfl
    · exact chars d hd
  | false => exact ⟨⟨c, first, by simp [Sexpr.numberStart, digit]⟩, chars⟩

theorem ofParts_injective {m n : Nat} (hm : m < infinityMagnitude) (hn : n < infinityMagnitude)
    (h : ofParts false m = ofParts false n) : m = n := by
  rw [← magnitude_ofParts false hm.le, h, magnitude_ofParts false hn.le]

theorem eq_of_parts {x y : Binary64} (sign : x.negative = y.negative) (magnitude : x.magnitude = y.magnitude) :
    x = y := by
  rw [← x.ofParts_eq, sign, magnitude, y.ofParts_eq]

theorem head?_format {x : Binary64} (finite : x.isFinite = true) :
    (dumpNumberStyle.format x).toList.head? = some '-' ↔ x.negative = true := by
  rw [format_finite _ finite, signText]
  cases x.negative with
  | true => simp
  | false =>
    obtain ⟨⟨c, first, digit⟩, -⟩ := magnitudeText_wellFormed x.magnitude
    rw [if_neg Bool.false_ne_true, List.nil_append, show List.head? _ = some c from first]
    simpa using Sexpr.ne_of_class digit rfl

/-- Finite numbers with the same text in a dump are the same. -/
theorem format_injective {x y : Binary64} (hx : x.isFinite = true) (hy : y.isFinite = true)
    (h : dumpNumberStyle.format x = dumpNumberStyle.format y) : x = y := by
  have texts := congrArg String.toList h
  have signs : x.negative = y.negative := by
    rw [Bool.eq_iff_iff, ← head?_format hx, ← head?_format hy, h]
  rw [format_finite _ hx, format_finite _ hy, signs] at texts
  simp only [isFinite, decide_eq_true_eq] at hx hy
  have read := congrArg (decimal? false) (List.append_cancel_left texts)
  rw [decimal?_magnitudeText hx, decimal?_magnitudeText hy] at read
  exact eq_of_parts signs (ofParts_injective hx hy (Option.some.inj read))

end NumberLiteral

end IndexedLoop
