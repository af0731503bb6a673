import IndexedLoop.Proofs.Extents.Token

/-!
# The values of number tokens

Dropping the signs between its digits, every number token is a big integer, a whole number in one of the other
bases (`NumberLiteral.Based`) or a decimal (`NumberLiteral.IsDecimal`). So it has a value, unless it is a whole
number in another base that is too large (`Lexical.IsNumber.value_or_tooLarge`), and the value is not negative
(`Lexical.IsNumber.isUnsigned`).
-/

namespace IndexedLoop

/-- A number that is not negative. It may be infinite. -/
structure Binary64.IsUnsigned (x : Binary64) : Prop where
  negative : x.negative = false
  isNaN : x.isNaN = false

namespace NumberLiteral

/-! ## Digits -/

/-- The characters of a literal without the signs between its digits. -/
def plain (cs : List Char) : List Char := cs.filter (· ≠ '_')

@[simp]
theorem plain_append (cs ds : List Char) : plain (cs ++ ds) = plain cs ++ plain ds := List.filter_append ..

theorem plain_cons {c : Char} (h : c ≠ '_') (cs : List Char) : plain (c :: cs) = c :: plain cs :=
  List.filter_cons_of_pos (by simpa using h)

@[simp]
theorem plain_underscore (cs : List Char) : plain ('_' :: cs) = plain cs := rfl

theorem forall_mem_plain_cons {p : Char → Bool} {c : Char} {cs : List Char} (hc : p c = true)
    (h : ∀ d ∈ plain cs, p d = true) : ∀ d ∈ plain (c :: cs), p d = true := by
  intro d mem
  obtain ⟨mem, other⟩ := List.mem_filter.mp mem
  rcases List.mem_cons.mp mem with rfl | mem
  · exact hc
  · exact h d (List.mem_filter.mpr ⟨mem, other⟩)

theorem isSome_digit? {base : Nat} {c : Char} (h : 48 ≤ c.toNat ∧ c.toNat < 48 + min base 10 ∨
    base = 16 ∧ (97 ≤ c.toNat ∧ c.toNat ≤ 102 ∨ 65 ≤ c.toNat ∧ c.toNat ≤ 70)) : (digit? base c).isSome = true := by
  have le (a b : Char) : a ≤ b ↔ a.toNat ≤ b.toNat := UInt32.le_iff_toNat_le
  have filtered {n : Nat} (lt : n < base) : ((some n).filter (· < base)).isSome = true := by simp [lt]
  simp only [digit?, le, Char.reduceToNat]
  rcases h with h | ⟨rfl, h | h⟩
  · rw [if_pos (by omega)]
    exact filtered (by omega)
  · rw [if_neg (by omega), if_pos (by omega)]
    exact filtered (by omega)
  · rw [if_neg (by omega), if_neg (by omega), if_pos (by omega)]
    exact filtered (by omega)

/-- The characters are digits in a base. -/
def Digits (base : Nat) (cs : List Char) : Prop := ∀ c ∈ cs, (digit? base c).isSome = true

theorem isSome_digit?_hex {c : Char} (h : Lexical.isHexDigit c = true) : (digit? 16 c).isSome = true := by
  have le (a b : Char) : a ≤ b ↔ a.toNat ≤ b.toNat := UInt32.le_iff_toNat_le
  have digit : c.isDigit = true ↔ 48 ≤ c.toNat ∧ c.toNat ≤ 57 := by
    simp [Char.isDigit, UInt32.le_iff_toNat_le, ← Char.toNat_val]
  simp only [Lexical.isHexDigit, Bool.or_eq_true, Bool.and_eq_true, decide_eq_true_eq, le, digit, Char.reduceToNat] at h
  exact isSome_digit? (by omega)

theorem isSome_digit?_octal {c : Char} (h : Lexical.isOctalDigit c = true) : (digit? 8 c).isSome = true := by
  have le (a b : Char) : a ≤ b ↔ a.toNat ≤ b.toNat := UInt32.le_iff_toNat_le
  simp only [Lexical.isOctalDigit, Bool.and_eq_true, decide_eq_true_eq, le, Char.reduceToNat] at h
  exact isSome_digit? (by omega)

theorem isSome_digit?_binary {c : Char} (h : Lexical.isBinaryDigit c = true) : (digit? 2 c).isSome = true := by
  rw [Lexical.isBinaryDigit, Bool.or_eq_true, beq_iff_eq, beq_iff_eq] at h
  rcases h with rfl | rfl <;> rfl

theorem Digits.value {base : Nat} {cs : List Char} (h : Digits base cs) (value : Nat) :
    ∃ n, digitsFrom? base value cs = some n := by
  induction cs generalizing value with
  | nil => exact ⟨value, rfl⟩
  | cons c cs ih =>
    obtain ⟨digit, rest⟩ := List.forall_mem_cons.mp h
    obtain ⟨d, hd⟩ := Option.isSome_iff_exists.mp digit
    obtain ⟨n, hn⟩ := ih rest (value * base + d)
    exact ⟨n, by rw [digitsFrom?, hd]; exact hn⟩

/-! ## Whole numbers in other bases -/

/-- A literal is a whole number whose digits stand in a base other than ten. -/
inductive Based : (text : List Char) → (base : Nat) → (digits : List Char) → Prop
  | hexadecimal {mark : Char} (h : mark = 'x' ∨ mark = 'X') (digits : List Char) :
      Based ('0' :: mark :: digits) 16 digits
  | octal {mark : Char} (h : mark = 'o' ∨ mark = 'O') (digits : List Char) :
      Based ('0' :: mark :: digits) 8 digits
  | binary {mark : Char} (h : mark = 'b' ∨ mark = 'B') (digits : List Char) :
      Based ('0' :: mark :: digits) 2 digits
  | legacyOctal {digits : List Char} (octal : ∀ c ∈ digits, Lexical.isOctalDigit c = true) :
      Based ('0' :: digits) 8 digits

/-- A literal is a whole number in a base other than ten of at least `2 ^ 128`. -/
def TooLarge (text : String) : Prop :=
  ∃ base digits value, Based (plain text.toList) base digits ∧ digitsFrom? base 0 digits = some value ∧ 2 ^ 128 ≤ value

/-- Whole numbers have a value below `2 ^ 128`. -/
theorem radix?_eq {base value : Nat} {digits : List Char} (some : digits ≠ []) (h : Digits base digits)
    (read : digitsFrom? base 0 digits = .some value) :
    radix? base digits = if value < 2 ^ 128 then .some (Binary64.ofNat value) else none := by
  have whole : whole? base digits = digitsFrom? base 0 digits := by
    obtain ⟨d, ds, rfl⟩ := List.exists_cons_of_ne_nil some
    have plus : d ≠ '+' := by
      rintro rfl
      exact absurd (h '+' (List.mem_cons_self ..)) (by simp [digit?])
    unfold whole?
    split
    · next e => cases e
    · next e => exact absurd (List.cons.inj e).1 plus
    · next e => exact absurd (List.cons.inj e).1 plus
    · rfl
  rw [radix?, whole, read]
  rfl

/-! ## Decimals -/

/-- Nothing, or an exponent. -/
inductive IsExponent : List Char → Int → Prop
  | none : IsExponent [] 0
  | some {mark : Char} {sign digits : List Char} (mark_eq : mark = 'e' ∨ mark = 'E')
      (sign_eq : sign = [] ∨ sign = ['+'] ∨ sign = ['-']) (nonempty : digits ≠ [])
      (isDigit : ∀ c ∈ digits, c.isDigit = true) :
      IsExponent (mark :: (sign ++ digits))
        (if sign = ['-'] then -(Nat.ofDigitChars 10 digits 0 : Int) else Nat.ofDigitChars 10 digits 0)

/-- Digits with a point in front of, behind or between them or without one, and nothing or an exponent. -/
inductive IsDecimal : List Char → Decimal → Prop
  | whole {digits tail : List Char} {e : Int} (nonempty : digits ≠ []) (isDigit : ∀ c ∈ digits, c.isDigit = true)
      (exponent : IsExponent tail e) : IsDecimal (digits ++ tail) ⟨Nat.ofDigitChars 10 digits 0, e⟩
  | fraction {digits fraction tail : List Char} {e : Int} (nonempty : digits ≠ [] ∨ fraction ≠ [])
      (isDigit : ∀ c ∈ digits ++ fraction, c.isDigit = true) (exponent : IsExponent tail e) :
      IsDecimal (digits ++ '.' :: (fraction ++ tail))
        ⟨Nat.ofDigitChars 10 (digits ++ fraction) 0, e - fraction.length⟩

theorem IsExponent.read {tail : List Char} {e : Int} (h : IsExponent tail e) : exponent? tail = .some e := by
  cases h with
  | none => rfl
  | @some mark sign digits mark_eq sign_eq nonempty isDigit =>
    obtain ⟨d, ds, rfl⟩ := List.exists_cons_of_ne_nil nonempty
    have read := digitsFrom?_eq isDigit 0
    have marked : ¬ (mark ≠ 'e' ∧ mark ≠ 'E') := fun ⟨e, E⟩ => mark_eq.elim e E
    have digit := isDigit d (List.mem_cons_self ..)
    have plus : d ≠ '+' := by
      rintro rfl
      exact absurd digit (by decide)
    have minus : d ≠ '-' := by
      rintro rfl
      exact absurd digit (by decide)
    rcases sign_eq with rfl | rfl | rfl
    all_goals simp [exponent?, marked, read, plus, minus]

theorem IsExponent.head {tail : List Char} {e : Int} (h : IsExponent tail e) :
    ∀ c ∈ tail.head?, c.isDigit = false ∧ c ≠ '.' := by
  cases h with
  | none => exact nofun
  | some mark_eq =>
    rintro c ⟨⟩
    rcases mark_eq with rfl | rfl <;> decide

theorem IsDecimal.read {cs : List Char} {d : Decimal} (h : IsDecimal cs d) (negative : Bool) :
    decimal? negative cs = some (ofScientific negative d.digits d.exponent) := by
  cases h with
  | @whole digits tail e nonempty isDigit exponent =>
    have stop (c : Char) (hc : c ∈ tail.head?) := (exponent.head c hc).1
    rw [decimal?, takeWhile_digits isDigit tail stop, dropWhile_digits isDigit tail stop]
    split
    · next point =>
      split at point
      · next rest => exact absurd rfl (exponent.head '.' rfl).2
      · cases point
        simp [nonempty, exponent.read, digitsFrom?_eq isDigit 0]
  | @fraction digits fraction tail e nonempty isDigit exponent =>
    have stop (c : Char) (hc : c ∈ tail.head?) := (exponent.head c hc).1
    obtain ⟨front, back⟩ := List.forall_mem_append.mp isDigit
    have point : ∀ c ∈ ('.' :: (fraction ++ tail)).head?, c.isDigit = false := by
      rintro c ⟨⟩
      decide
    rw [decimal?, takeWhile_digits front _ point, dropWhile_digits front _ point]
    have some : (digits.isEmpty && fraction.isEmpty) = false := by
      rw [Bool.and_eq_false_iff, List.isEmpty_eq_false_iff, List.isEmpty_eq_false_iff]
      exact nonempty
    simp [takeWhile_digits back tail stop, dropWhile_digits back tail stop, some, exponent.read, digitsFrom?_eq isDigit 0]

/-- A decimal starts with a digit or a point. -/
theorem IsDecimal.first {cs : List Char} {d : Decimal} (h : IsDecimal cs d) :
    ∃ c rest, cs = c :: rest ∧ (c.isDigit = true ∨ c = '.') := by
  cases h with
  | whole nonempty isDigit =>
    obtain ⟨c, ds, rfl⟩ := List.exists_cons_of_ne_nil nonempty
    exact ⟨c, _, rfl, .inl (isDigit c (List.mem_cons_self ..))⟩
  | @fraction digits fraction tail e nonempty isDigit =>
    cases digits with
    | nil => exact ⟨'.', _, rfl, .inr rfl⟩
    | cons c ds => exact ⟨c, _, rfl, .inl (isDigit c (List.mem_cons_self ..))⟩

/-- A decimal has no sign. -/
theorem IsDecimal.signed {cs : List Char} {d : Decimal} (h : IsDecimal cs d) :
    signed? cs = some (ofScientific false d.digits d.exponent) := by
  rw [← h.read false]
  obtain ⟨c, rest, rfl, first⟩ := h.first
  exact signed?_unsigned first rest

/-- A decimal may have a sign in front. -/
theorem IsDecimal.signed_minus {cs : List Char} {d : Decimal} (h : IsDecimal cs d) :
    signed? ('-' :: cs) = some (ofScientific true d.digits d.exponent) := by
  rw [← h.read true]
  obtain ⟨c, rest, rfl, first⟩ := h.first
  exact signed?_minus first rest

/-- The character behind the first one marks no other base. -/
theorem IsDecimal.second {c d : Char} {cs : List Char} {value : Decimal} (h : IsDecimal (c :: d :: cs) value) :
    d.isDigit = true ∨ d = '.' ∨ d = 'e' ∨ d = 'E' := by
  generalize e : c :: d :: cs = text at h
  cases h with
  | @whole digits tail e' nonempty isDigit exponent =>
    match digits, nonempty with
    | [x], _ =>
      obtain rfl : d :: cs = tail := (List.cons.inj e).2
      cases exponent with
      | some mark_eq => exact .inr (.inr mark_eq)
    | x :: y :: digits, _ =>
      obtain rfl : d = y := (List.cons.inj (List.cons.inj e).2).1
      exact .inl (isDigit d (by simp))
  | @fraction digits fraction tail e' nonempty isDigit exponent =>
    match digits with
    | [] =>
      have rest : d :: cs = fraction ++ tail := (List.cons.inj e).2
      obtain ⟨y, fraction, rfl⟩ := List.exists_cons_of_ne_nil (nonempty.resolve_left (not_not.mpr rfl))
      obtain rfl : d = y := (List.cons.inj rest).1
      exact .inl (isDigit d (by simp))
    | [x] => exact .inr (.inl (List.cons.inj (List.cons.inj e).2).1)
    | x :: y :: digits =>
      obtain rfl : d = y := (List.cons.inj (List.cons.inj e).2).1
      exact .inl (isDigit d (by simp))

/-! ## Literals -/

theorem Based.read {text : String} {base : Nat} {digits : List Char} (h : Based (plain text.toList) base digits)
    (nonempty : digits ≠ []) : read? text = radix? base digits := by
  unfold plain at h
  unfold read?
  generalize text.toList.filter (· ≠ '_') = cs at h
  cases h with
  | hexadecimal h => rcases h with rfl | rfl <;> rfl
  | octal h => rcases h with rfl | rfl <;> rfl
  | binary h => rcases h with rfl | rfl <;> rfl
  | legacyOctal octal =>
    obtain ⟨d, ds, rfl⟩ := List.exists_cons_of_ne_nil nonempty
    have first := octal d (List.mem_cons_self ..)
    split
    case h_7 e =>
      cases e
      exact if_pos (List.all_eq_true.mpr octal)
    case h_8 other => exact absurd rfl (other _ _)
    all_goals
      next e =>
        obtain rfl := (List.cons.inj (List.cons.inj e).2).1
        exact absurd first (by decide)

theorem Based.value_or_tooLarge {text : String} {base : Nat} {digits : List Char}
    (h : Based (plain text.toList) base digits) (nonempty : digits ≠ []) (valid : Digits base digits) :
    (∃ x, read? text = some x) ∨ TooLarge text := by
  obtain ⟨value, read⟩ := valid.value 0
  by_cases small : value < 2 ^ 128
  · exact .inl ⟨_, by rw [h.read nonempty, radix?_eq nonempty valid read, if_pos small]⟩
  · exact .inr ⟨base, digits, value, h, read, not_lt.mp small⟩

/-- A decimal behind a zero and without a digit above seven is octal. Any other decimal is read as one. -/
theorem IsDecimal.read_or_octal {text : String} {value : Decimal} (h : IsDecimal (plain text.toList) value) :
    (∃ digits, digits ≠ [] ∧ plain text.toList = '0' :: digits ∧ ∀ c ∈ digits, Lexical.isOctalDigit c = true) ∨
      read? text = some (ofScientific false value.digits value.exponent) := by
  have signed := h.signed
  have mark {d : Char} {digits : List Char} (e : plain text.toList = '0' :: d :: digits)
      (other : d.isDigit = false ∧ d ≠ '.' ∧ d ≠ 'e' ∧ d ≠ 'E') : False := by
    rw [e] at h
    rcases h.second with digit | point | e | e
    · exact absurd digit (by rw [other.1]; exact Bool.false_ne_true)
    · exact other.2.1 point
    · exact other.2.2.1 e
    · exact other.2.2.2 e
  unfold read?
  split
  case h_7 d digits _ _ _ _ _ _ e =>
    have e : plain text.toList = '0' :: d :: digits := e
    split
    · next octal => exact .inl ⟨d :: digits, nofun, e, List.all_eq_true.mp octal⟩
    · exact .inr (e ▸ signed)
  case h_8 => exact .inr signed
  all_goals next e => exact (mark e (by decide)).elim

theorem IsDecimal.value_or_tooLarge {text : String} {value : Decimal} (h : IsDecimal (plain text.toList) value) :
    (∃ x, read? text = some x) ∨ TooLarge text := by
  rcases h.read_or_octal with ⟨digits, nonempty, e, octal⟩ | read
  · have based : Based (plain text.toList) 8 digits := e ▸ .legacyOctal octal
    exact based.value_or_tooLarge nonempty fun c mem => isSome_digit?_octal (octal c mem)
  · exact .inl ⟨_, read⟩

/-! ## Numbers without a sign -/

section Unsigned

open Binary64

theorem isUnsigned_ofParts {m : Nat} (h : m ≤ infinityMagnitude) : (ofParts false m).IsUnsigned := by
  refine ⟨negative_ofParts false h, ?_⟩
  rw [isNaN, magnitude_ofParts false h]
  exact decide_eq_false (not_lt.mpr h)

theorem isUnsigned_ofRatio (num den : Nat) : (ofRatio false num den).IsUnsigned :=
  isUnsigned_ofParts (Nat.min_le_right ..)

theorem isUnsigned_radix {base : Nat} {digits : List Char} {x : Binary64} (h : radix? base digits = some x) :
    x.IsUnsigned := by
  rw [radix?, Option.bind_eq_bind, Option.bind_eq_some_iff] at h
  obtain ⟨value, -, h⟩ := h
  obtain ⟨-, rfl⟩ := Option.ite_none_right_eq_some.mp h |>.imp_right Option.some.inj
  exact isUnsigned_ofRatio value 1

theorem isUnsigned_ofScientific (digits : Nat) (exponent : Int) : (ofScientific false digits exponent).IsUnsigned := by
  unfold ofScientific
  dsimp only
  split
  · exact isUnsigned_ofParts (Nat.zero_le _)
  · split
    · exact isUnsigned_ofParts le_rfl
    · split <;> exact isUnsigned_ofRatio _ _

/-- A literal is a whole number in another base, or a decimal. -/
theorem read?_cases {text : String} {x : Binary64} (h : read? text = some x) :
    (∃ base digits, radix? base digits = some x) ∨ signed? (plain text.toList) = some x := by
  unfold read? at h
  unfold plain
  split at h
  case h_7 e =>
    split at h
    · exact .inl ⟨_, _, h⟩
    · exact .inr (e ▸ h)
  case h_8 => exact .inr h
  all_goals exact .inl ⟨_, _, h⟩

end Unsigned

end NumberLiteral

/-! ## Tokens -/

namespace Lexical

open NumberLiteral

variable {s : List Symbol} {m n : Nat} {cs ds : List Char} {p : Char → Bool}

/-- The first symbols of a text are these characters. -/
def Takes (s : List Symbol) (n : Nat) (cs : List Char) : Prop := s.take n = cs.map .char

theorem takes_zero (s : List Symbol) : Takes s 0 [] := rfl

theorem Takes.cons (h : Takes s n cs) (c : Char) : Takes (.char c :: s) (1 + n) (c :: cs) := by
  rw [Takes, Nat.add_comm, List.take_succ_cons, h]
  rfl

theorem Takes.append (h : Takes s m cs) (h' : Takes (s.drop m) n ds) : Takes s (m + n) (cs ++ ds) := by
  rw [Takes, List.take_add, h, h', List.map_append]

theorem takes_moreDigits (s : List Symbol) :
    ∃ cs, Takes s (moreDigits p s) cs ∧ ∀ c ∈ plain cs, p c = true := by
  fun_induction moreDigits p s with
  | case1 d rest digit ih =>
    obtain ⟨cs, takes, digits⟩ := ih
    refine ⟨'_' :: d :: cs, ?_, ?_⟩
    · rw [Nat.add_assoc 1 1]
      exact (takes.cons d).cons '_'
    · rw [plain_underscore]
      exact forall_mem_plain_cons digit digits
  | case3 d rest _ digit ih =>
    obtain ⟨cs, takes, digits⟩ := ih
    exact ⟨d :: cs, takes.cons d, forall_mem_plain_cons digit digits⟩
  | _ => exact ⟨[], takes_zero _, nofun⟩

/-- Digits start with a digit. -/
theorem takes_digitRun (underscore : p '_' = false) (s : List Symbol) :
    ∃ cs, Takes s (digitRun p s) cs ∧ (0 < digitRun p s → plain cs ≠ []) ∧ ∀ c ∈ plain cs, p c = true := by
  fun_cases digitRun p s with
  | case1 d rest digit =>
    obtain ⟨cs, takes, digits⟩ := takes_moreDigits rest
    have other : d ≠ '_' := by
      rintro rfl
      exact absurd digit (by rw [underscore]; exact Bool.false_ne_true)
    refine ⟨d :: cs, takes.cons d, fun _ => ?_, forall_mem_plain_cons digit digits⟩
    rw [plain_cons other]
    exact List.cons_ne_nil _ _
  | _ => exact ⟨[], takes_zero _, fun h => absurd h (Nat.lt_irrefl 0), nofun⟩

/-- The sign of an exponent. -/
theorem takes_sign (s : List Symbol) :
    ∃ sign, Takes s (if startsWith ['+'] s || startsWith ['-'] s then 1 else 0) sign ∧
    (sign = [] ∨ sign = ['+'] ∨ sign = ['-']) ∧ plain sign = sign := by
  split
  · next signed =>
    rcases Bool.or_eq_true_iff.mp signed with h | h
    · obtain ⟨rest, rfl⟩ := (startsWith_iff _ _).mp h
      exact ⟨['+'], rfl, .inr (.inl rfl), rfl⟩
    · obtain ⟨rest, rfl⟩ := (startsWith_iff _ _).mp h
      exact ⟨['-'], rfl, .inr (.inr rfl), rfl⟩
  · exact ⟨[], takes_zero _, .inl rfl, rfl⟩

theorem takes_exponent (s : List Symbol) : ∃ cs, Takes s (exponent s) cs ∧ ∃ e, IsExponent (plain cs) e := by
  unfold exponent
  split
  · next mark rest =>
    split
    · exact ⟨[], takes_zero _, 0, .none⟩
    · next marked =>
      have mark_eq : mark = 'e' ∨ mark = 'E' := by simpa [or_iff_not_imp_left] using marked
      obtain ⟨sign, takes, sign_eq, plain_sign⟩ := takes_sign rest
      generalize (if startsWith ['+'] rest || startsWith ['-'] rest then 1 else 0) = m at takes
      obtain ⟨cs, digits, nonempty, isDigit⟩ := takes_digitRun (by decide : Char.isDigit '_' = false) (rest.drop m)
      dsimp only
      split
      · exact ⟨[], takes_zero _, 0, .none⟩
      · next _ nonzero =>
        refine ⟨mark :: (sign ++ cs), ?_, ?_⟩
        · rw [Nat.add_assoc]
          exact (takes.append digits).cons mark
        · rw [plain_cons (by rcases mark_eq with rfl | rfl <;> decide), plain_append, plain_sign]
          exact ⟨_, .some mark_eq sign_eq (nonempty (Nat.pos_of_ne_zero nonzero)) isDigit⟩
  · exact ⟨[], takes_zero _, 0, .none⟩

/-- Digits in front of a point or an exponent make up a decimal. -/
theorem takes_fractionOrExponent (s : List Symbol) : ∃ cs, Takes s (fractionOrExponent s) cs ∧
    ∀ {ds : List Char}, plain ds ≠ [] → (∀ c ∈ plain ds, c.isDigit = true) →
      ∃ value, IsDecimal (plain (ds ++ cs)) value := by
  unfold fractionOrExponent
  split
  · next rest =>
    obtain ⟨fs, takes, -, isDigit⟩ := takes_digitRun (by decide : Char.isDigit '_' = false) rest
    obtain ⟨es, takes', e, exponent⟩ := takes_exponent (rest.drop (digitRun Char.isDigit rest))
    refine ⟨'.' :: (fs ++ es), ?_, fun {ds} nonempty digits => ?_⟩
    · rw [Nat.add_assoc]
      exact (takes.append takes').cons '.'
    · rw [plain_append, plain_cons (by decide), plain_append]
      exact ⟨_, .fraction (.inl nonempty) (List.forall_mem_append.mpr ⟨digits, isDigit⟩) exponent⟩
  · obtain ⟨es, takes, e, exponent⟩ := takes_exponent s
    refine ⟨es, takes, fun {ds} nonempty digits => ?_⟩
    rw [plain_append]
    exact ⟨_, .whole nonempty digits exponent⟩

theorem takes_wholePart {d : Char} (digit : d.isDigit = true) (rest : List Symbol) :
    ∃ cs, Takes (.char d :: rest) (wholePart (.char d :: rest)) cs ∧ plain cs ≠ [] ∧
      ∀ c ∈ plain cs, c.isDigit = true := by
  have run (d : Char) (digit : d.isDigit = true) (rest : List Symbol) :
      ∃ cs, Takes (.char d :: rest) (digitRun Char.isDigit (.char d :: rest)) cs ∧ plain cs ≠ [] ∧
        ∀ c ∈ plain cs, c.isDigit = true := by
    obtain ⟨cs, takes, nonempty, isDigit⟩ := takes_digitRun (by decide : Char.isDigit '_' = false) (.char d :: rest)
    refine ⟨cs, takes, nonempty ?_, isDigit⟩
    rw [digitRun, if_pos digit]
    omega
  generalize e : Symbol.char d :: rest = s
  fun_cases wholePart s with
  | case1 d' rest' nonzero =>
    obtain ⟨cs, takes, -, isDigit⟩ := run d' nonzero.2 rest'
    exact ⟨'0' :: cs, takes.cons '0', by rw [plain_cons (by decide)]; exact List.cons_ne_nil _ _,
      forall_mem_plain_cons (by decide) isDigit⟩
  | case2 d' rest' => exact ⟨['0'], (takes_zero _).cons '0', List.cons_ne_nil _ _, by decide⟩
  | case3 => exact e ▸ run d digit rest

/-- What a number token may be. -/
def NumberForm (cs : List Char) : Prop :=
  (∃ ds, cs = ds ++ ['n']) ∨ (∃ base digits, Based (plain cs) base digits ∧ digits ≠ [] ∧ Digits base digits) ∨
    ∃ value, IsDecimal (plain cs) value

theorem takes_decimal {d : Char} (digit : d.isDigit = true) (rest : List Symbol) :
    ∃ cs, Takes (.char d :: rest) (decimal (.char d :: rest)) cs ∧ NumberForm cs := by
  generalize hs : Symbol.char d :: rest = s
  obtain ⟨ws, whole, whole_some, whole_digits⟩ := takes_wholePart digit rest
  obtain ⟨cs, run, run_some, run_digits⟩ := takes_digitRun (by decide : Char.isDigit '_' = false) s
  rw [hs] at whole
  obtain ⟨fs, tail, isDecimal⟩ := takes_fractionOrExponent (s.drop (wholePart s))
  rw [decimal]
  dsimp only
  split
  · split
    · next big =>
      obtain ⟨more, e⟩ := (startsWith_iff _ _).mp big
      refine ⟨cs ++ ['n'], run.append ?_, .inl ⟨cs, rfl⟩⟩
      rw [← e]
      rfl
    · refine ⟨cs, run, .inr (.inr ?_)⟩
      have some : 0 < digitRun Char.isDigit s := by
        rw [← hs, digitRun, if_pos digit]
        omega
      rw [← List.append_nil (plain cs)]
      exact ⟨_, .whole (run_some some) run_digits .none⟩
  · exact ⟨ws ++ fs, whole.append tail, .inr (.inr (isDecimal whole_some whole_digits))⟩

theorem takes_radixNumber {s : List Symbol} {base : Nat} {mark : Char} (underscore : p '_' = false)
    (mark_ne : mark ≠ '_') (digit : ∀ c, p c = true → (digit? base c).isSome = true)
    (based : ∀ digits, Based ('0' :: mark :: digits) base digits)
    (h : radixNumber? p (.char '0' :: .char mark :: s) = some n) :
    ∃ cs, Takes (.char '0' :: .char mark :: s) n cs ∧ NumberForm cs := by
  obtain ⟨cs, run, nonempty, digits⟩ := takes_digitRun underscore s
  have run : Takes (.char '0' :: .char mark :: s) (2 + digitRun p s) ('0' :: mark :: cs) := by
    rw [Nat.add_assoc 1 1]
    exact (run.cons mark).cons '0'
  unfold radixNumber? at h
  split at h
  · cases h
  · next _ nonzero =>
    cases h
    split
    · next big =>
      obtain ⟨more, e⟩ := (startsWith_iff _ _).mp big
      refine ⟨'0' :: mark :: cs ++ ['n'], ?_, .inl ⟨_, rfl⟩⟩
      have last : Takes ((Symbol.char '0' :: .char mark :: s).drop (2 + digitRun p s)) 1 ['n'] := by
        have e : .char 'n' :: more = (Symbol.char '0' :: .char mark :: s).drop (2 + digitRun p s) := e
        rw [← e]
        rfl
      have whole := run.append last
      rwa [Nat.add_right_comm, Nat.add_comm] at whole
    · refine ⟨'0' :: mark :: cs, ?_, .inr (.inl ⟨base, plain cs, ?_, nonempty (Nat.pos_of_ne_zero nonzero), ?_⟩)⟩
      · rw [Nat.add_comm]
        exact run
      · rw [plain_cons (by decide), plain_cons mark_ne]
        exact based _
      · exact fun c mem => digit c (digits c mem)

theorem takes_number (h : number s = n + 1) : ∃ cs, Takes s (n + 1) cs ∧ NumberForm cs := by
  unfold number at h
  split at h
  · next rest =>
    obtain ⟨fs, takes, nonempty, isDigit⟩ := takes_digitRun (by decide : Char.isDigit '_' = false) rest
    split at h
    · cases h
    · next _ nonzero =>
      obtain ⟨es, takes', e, exponent⟩ := takes_exponent (rest.drop (digitRun Char.isDigit rest))
      refine ⟨'.' :: (fs ++ es), ?_, .inr (.inr ?_)⟩
      · rw [← h, Nat.add_assoc]
        exact (takes.append takes').cons '.'
      · rw [plain_cons (by decide), plain_append]
        exact ⟨_, @IsDecimal.fraction [] _ _ _ (.inr (nonempty (Nat.pos_of_ne_zero nonzero))) isDigit exponent⟩
  · next mark rest =>
    generalize hr : (if mark = 'x' ∨ mark = 'X' then radixNumber? isHexDigit (.char '0' :: .char mark :: rest)
      else if mark = 'o' ∨ mark = 'O' then radixNumber? isOctalDigit (.char '0' :: .char mark :: rest)
      else if mark = 'b' ∨ mark = 'B' then radixNumber? isBinaryDigit (.char '0' :: .char mark :: rest)
      else none) = radix? at h
    rw [← h]
    cases radix? with
    | none => exact takes_decimal (by decide) _
    | some m =>
      split at hr
      · next hex =>
        exact takes_radixNumber (by decide) (by rcases hex with rfl | rfl <;> decide) (fun _ => isSome_digit?_hex)
          (.hexadecimal hex) hr
      · split at hr
        · next octal =>
          exact takes_radixNumber (by decide) (by rcases octal with rfl | rfl <;> decide) (fun _ => isSome_digit?_octal)
            (.octal octal) hr
        · split at hr
          · next binary =>
            exact takes_radixNumber (by decide) (by rcases binary with rfl | rfl <;> decide)
              (fun _ => isSome_digit?_binary) (.binary binary) hr
          · cases hr
  · split at h
    · next digit =>
      rw [← h]
      exact takes_decimal digit _
    · cases h
  · cases h

theorem IsNumber.form {symbols : List Symbol} (h : IsNumber symbols) :
    ∃ text : String, symbols = Symbol.ofString text ∧
      (text.endsWith "n" = true ∨
        (∃ base digits, Based (plain text.toList) base digits ∧ digits ≠ [] ∧ Digits base digits) ∨
        ∃ value, IsDecimal (plain text.toList) value) := by
  obtain ⟨s, n, length, rfl⟩ := h
  obtain ⟨cs, takes, form⟩ := takes_number length
  have chars : (String.ofList cs).toList = cs := String.toList_ofList
  refine ⟨String.ofList cs, ?_, ?_⟩
  · rw [Symbol.ofString, chars]
    exact takes
  · rw [chars]
    refine form.imp_left ?_
    rintro ⟨ds, rfl⟩
    rw [String.endsWith, String.Slice.endsWith_string_iff, String.copy_toSlice, chars]
    exact ⟨ds, rfl⟩

/-- A number token has a value, unless it is a whole number in another base that is too large. -/
theorem IsNumber.value_or_tooLarge {symbols : List Symbol} (h : IsNumber symbols) :
    ∃ text : String, symbols = Symbol.ofString text ∧
      (text.endsWith "n" = true ∨ (∃ x, read? text = some x) ∨ TooLarge text) := by
  obtain ⟨text, e, form⟩ := h.form
  refine ⟨text, e, form.imp_right ?_⟩
  rintro (⟨base, digits, based, nonempty, valid⟩ | ⟨value, isDecimal⟩)
  · exact based.value_or_tooLarge nonempty valid
  · exact isDecimal.value_or_tooLarge

/-- The value of a number token is not negative. -/
theorem IsNumber.isUnsigned {text : String} (h : IsNumber (Symbol.ofString text)) (small : text.endsWith "n" = false)
    {x : Binary64} (read : read? text = some x) : x.IsUnsigned := by
  obtain ⟨text', e, form⟩ := h.form
  obtain rfl : text = text' := String.toList_inj.mp (List.map_injective_iff.mpr Symbol.char_injective e)
  rcases form with big | ⟨base, digits, based, nonempty, -⟩ | ⟨value, isDecimal⟩
  · exact absurd big (by rw [small]; exact Bool.false_ne_true)
  · exact isUnsigned_radix ((based.read nonempty).symm.trans read)
  · rcases read?_cases read with ⟨base, digits, radix⟩ | signed
    · exact isUnsigned_radix radix
    · rw [isDecimal.signed] at signed
      exact Option.some.inj signed ▸ isUnsigned_ofScientific _ _

end Lexical

end IndexedLoop
