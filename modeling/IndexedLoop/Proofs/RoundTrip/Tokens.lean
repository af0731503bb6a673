import IndexedLoop.Proofs.Numerals
import IndexedLoop.Surface.Token
import Mathlib

/-!
# Where tokens end

The longest token at the start of a text, for texts that are put together from tokens. A punctuation token
is read whole unless a longer one starts the text (`punctuator?_of_not_longer`). A name, a number and the
flags of a regular expression end at any of the `breakChars` (`word_name`, `number_parts`,
`regexFlags_append`), and a string and a regular expression at what closes them (`string?_body`,
`regex?_body`).
-/

namespace IndexedLoop

/-! ## Texts as symbols -/

@[simp]
theorem Symbol.ofString_append (s t : String) :
    Symbol.ofString (s ++ t) = Symbol.ofString s ++ Symbol.ofString t := by
  simp [Symbol.ofString]

@[simp]
theorem Symbol.length_ofString (s : String) : (Symbol.ofString s).length = s.toList.length := by
  simp [Symbol.ofString]

theorem Symbol.char_injective : Function.Injective Symbol.char := fun _ _ h => by
  cases h
  rfl

namespace Lexical

theorem startsWith_iff (cs : List Char) (s : List Symbol) :
    startsWith cs s = true ↔ cs.map Symbol.char <+: s := by
  induction cs generalizing s with
  | nil => simp [startsWith]
  | cons c cs ih =>
    match s with
    | [] => simp [startsWith]
    | .stray b :: rest => simp [startsWith, List.cons_prefix_cons]
    | .char d :: rest => simp [startsWith, List.cons_prefix_cons, ih]

/-! ## Punctuation -/

/-- Of the tokens that a token starts with, the token itself stands first. -/
theorem punctuators_first : ∀ p ∈ punctuators,
    punctuators.find? (fun q => q.toList.isPrefixOf p.toList) = some p := by
  decide +kernel

theorem punctuators_solid : ∀ p ∈ punctuators, ' ' ∉ p.toList := by
  decide +kernel

/-- A punctuation token is read whole unless the text goes on with a longer one. -/
theorem punctuator?_of_not_longer {p : String} (hp : p ∈ punctuators) {rest : List Symbol}
    (short : ∀ q ∈ punctuators, p.toList <+: q.toList → q ≠ p →
      startsWith q.toList (Symbol.ofString p ++ rest) = false) :
    punctuator? (Symbol.ofString p ++ rest) = some p := by
  rw [← punctuators_first p hp]
  unfold punctuator?
  apply List.find?_congr
  intro q hq
  rw [Bool.eq_iff_iff, List.isPrefixOf_iff_prefix]
  constructor
  · intro h
    have hpq := List.prefix_or_prefix_of_prefix ((startsWith_iff _ _).mp h) (List.prefix_append _ _)
    simp only [Symbol.ofString, List.prefix_map_iff_of_injective Symbol.char_injective] at hpq
    rcases hpq with hpq | hpq
    · exact hpq
    · by_cases e : q = p
      · rw [e]
      · rw [short q hq hpq e] at h
        cases h
  · intro h
    rw [startsWith_iff]
    exact (h.map _).trans (List.prefix_append _ _)

/-- In front of a blank every punctuation token is read whole. -/
theorem punctuator?_blank {p : String} (hp : p ∈ punctuators) (rest : List Symbol) :
    punctuator? (Symbol.ofString p ++ .char ' ' :: rest) = some p := by
  refine punctuator?_of_not_longer hp fun q hq hpq hne => ?_
  rw [Bool.eq_false_iff, ne_eq, startsWith_iff]
  obtain ⟨more, e⟩ := hpq
  rw [← e, List.map_append, Symbol.ofString, List.prefix_append_right_inj]
  cases more with
  | nil => exact absurd (String.toList_inj.mp ((List.append_nil _).symm.trans e)) (Ne.symm hne)
  | cons d more =>
    rw [List.map_cons, List.cons_prefix_cons]
    rintro ⟨h, -⟩
    cases h
    exact punctuators_solid q hq (by simp [← e])

/-- The tokens that no other token starts with. -/
def isSolitary (p : String) : Bool :=
  punctuators.contains p && punctuators.all fun q => q == p || !p.toList.isPrefixOf q.toList

theorem punctuator?_solitary {p : String} (hp : isSolitary p = true) (rest : List Symbol) :
    punctuator? (Symbol.ofString p ++ rest) = some p := by
  simp only [isSolitary, Bool.and_eq_true, List.contains_iff_mem, List.all_eq_true, Bool.or_eq_true,
    beq_iff_eq, Bool.not_eq_true'] at hp
  refine punctuator?_of_not_longer hp.1 fun q hq hpq hne => ?_
  rcases hp.2 q hq with e | e
  · exact absurd e hne
  · rw [← Bool.not_eq_true, List.isPrefixOf_iff_prefix] at e
    exact absurd hpq e

/-! ## Runs of symbols -/

theorem runLength_append {p : Symbol → Bool} {xs ys : List Symbol} (hx : ∀ x ∈ xs, p x = true)
    (hy : ∀ y ∈ ys.head?, p y = false) : runLength p (xs ++ ys) = xs.length := by
  induction xs with
  | nil =>
    cases ys with
    | nil => rfl
    | cons y ys => simp [runLength, hy y rfl]
  | cons x xs ih =>
    simp only [List.mem_cons, forall_eq_or_imp] at hx
    simp [runLength, hx.1, ih hx.2, Nat.add_comm]

/-! ## Words -/

/-- The pieces of a name: characters that a word can hold, and escaped characters. -/
inductive NameText : List Char → Prop
  | nil : NameText []
  | char {c : Char} {rest : List Char} (word : isWordChar c = true) (next : NameText rest) :
    NameText (c :: rest)
  | escape {digits rest : List Char} (four : digits.length = 4)
    (hex : ∀ d ∈ digits, isHexDigit d = true) (next : NameText rest) :
    NameText ('\\' :: 'u' :: (digits ++ rest))
  | braced {digits rest : List Char} (some : digits ≠ [])
    (hex : ∀ d ∈ digits, isHexDigit d = true) (next : NameText rest) :
    NameText ('\\' :: 'u' :: '\x7b' :: (digits ++ '\x7d' :: rest))

/-- The text of a name. It does not start with a digit. -/
structure IsName (cs : List Char) : Prop where
  text : NameText cs
  start : ∃ c ∈ cs.head?, c.isDigit = false

theorem wordFrom_skip (xs ys : List Symbol) :
    wordFrom xs.length (xs ++ ys) = xs.length + wordFrom 0 ys := by
  induction xs with
  | nil => simp
  | cons x xs ih => simp [wordFrom, ih]; omega

theorem unicodeEscape?_four {digits : List Char} (four : digits.length = 4)
    (hex : ∀ d ∈ digits, isHexDigit d = true) (rest : List Symbol) :
    unicodeEscape? (digits.map .char ++ rest) = some 4 := by
  have take : (digits.map Symbol.char ++ rest).take 4 = digits.map .char := by
    rw [← four, ← List.length_map (f := Symbol.char), List.take_left]
  simp only [unicodeEscape?, take, List.length_map, four, List.all_map]
  rw [if_pos ⟨Nat.le_refl 4, List.all_eq_true.mpr hex⟩]

theorem bracedHex?_digits {digits : List Char} (some : digits ≠ [])
    (hex : ∀ d ∈ digits, isHexDigit d = true) (rest : List Symbol) :
    bracedHex? (digits.map .char ++ .char '\x7d' :: rest) = .some (digits.length + 1) := by
  have run : runLength (·.satisfies isHexDigit) (digits.map Symbol.char ++ .char '\x7d' :: rest) =
      digits.length := by
    rw [runLength_append, List.length_map]
    · simpa [Symbol.satisfies] using hex
    · simp only [List.head?_cons, Option.mem_some_iff, forall_eq']
      decide
  have pos : 0 < digits.length := List.length_pos_iff.mpr some
  simp only [bracedHex?, run]
  rw [if_pos]
  refine ⟨pos, ?_⟩
  rw [← List.length_map (f := Symbol.char), List.drop_left]
  rfl

theorem unicodeEscape?_braced {digits : List Char} (some : digits ≠ [])
    (hex : ∀ d ∈ digits, isHexDigit d = true) (rest : List Symbol) :
    unicodeEscape? (.char '\x7b' :: (digits.map .char ++ .char '\x7d' :: rest)) =
      .some (digits.length + 2) := by
  have no : isHexDigit '\x7b' = false := by decide
  simp [unicodeEscape?, Symbol.satisfies, no, bracedHex?_digits some hex]
  omega

theorem wordPiece_char {c : Char} (h : isWordChar c = true) (rest : List Symbol) :
    wordPiece (.char c :: rest) = 1 := by
  have : c ≠ '\\' := by
    rintro rfl
    revert h
    decide
  unfold wordPiece
  split
  · rename_i e
    cases e
    exact absurd rfl this
  · rename_i e
    cases e
    rw [if_pos h]
  · rename_i e
    exact absurd rfl (e c rest)

theorem wordFrom_piece {x : Symbol} {rest : List Symbol} {n : Nat} (h : wordPiece (x :: rest) = n + 1) :
    wordFrom 0 (x :: rest) = 1 + wordFrom n rest := by
  simp only [wordFrom, h]

theorem wordFrom_name {cs : List Char} (h : NameText cs) {rest : List Symbol}
    (stop : wordPiece rest = 0) : wordFrom 0 (cs.map .char ++ rest) = cs.length := by
  induction h with
  | nil =>
    cases rest with
    | nil => rfl
    | cons x rest => simp [wordFrom, stop]
  | char word _ ih =>
    rw [List.map_cons, List.cons_append, wordFrom_piece (wordPiece_char word _), ih, List.length_cons,
      Nat.add_comm]
  | @escape digits more four hex _ ih =>
    have skip := wordFrom_skip (.char 'u' :: digits.map .char) (more.map .char ++ rest)
    simp only [List.length_cons, List.length_map, four, List.cons_append, ih] at skip
    simp only [List.map_cons, List.map_append, List.cons_append, List.append_assoc, List.length_cons,
      List.length_append, four]
    rw [wordFrom_piece, skip]
    · omega
    · simp [wordPiece, unicodeEscape?_four four hex]
  | @braced digits more some hex _ ih =>
    have skip := wordFrom_skip (.char 'u' :: .char '\x7b' :: (digits.map .char ++ [Symbol.char '\x7d']))
      (more.map .char ++ rest)
    simp only [List.length_cons, List.length_append, List.length_map, List.length_nil, List.cons_append,
      List.append_assoc, List.nil_append, ih] at skip
    simp only [List.map_cons, List.map_append, List.cons_append, List.append_assoc, List.length_cons,
      List.length_append]
    rw [wordFrom_piece, skip]
    · omega
    · simp [wordPiece, unicodeEscape?_braced some hex]
      omega

theorem word_name {cs : List Char} (h : IsName cs) {rest : List Symbol}
    (stop : wordPiece rest = 0) : word (cs.map .char ++ rest) = cs.length := by
  obtain ⟨c, hc, digit⟩ := h.start
  cases cs with
  | nil => cases hc
  | cons d cs =>
    simp only [List.head?_cons, Option.mem_some_iff] at hc
    subst hc
    have := wordFrom_name h.text stop
    simp only [List.map_cons, List.cons_append] at this ⊢
    simp only [word, digit, Bool.false_eq_true, ↓reduceIte, this]

/-! ## What stands behind a token -/

/-- The characters that stand directly behind names, numbers and regular expressions. -/
def breakChars : List Char :=
  [' ', '.', ',', ';', ':', '?', '(', ')', '[', ']', '\x7d', '+', '-']

/-- No word or number goes on with this text. -/
def Breaks (s : List Symbol) : Prop := ∀ x ∈ s.head?, ∃ c ∈ breakChars, x = .char c

theorem Breaks.wordPiece_eq {s : List Symbol} (h : Breaks s) : wordPiece s = 0 := by
  cases s with
  | nil => rfl
  | cons x rest =>
    obtain ⟨c, hc, rfl⟩ := h x rfl
    have : ∀ c ∈ breakChars, isWordChar c = false ∧ c ≠ '\\' := by decide
    obtain ⟨word, backslash⟩ := this c hc
    unfold wordPiece
    split
    · rename_i e
      cases e
      exact absurd rfl backslash
    · rename_i e
      cases e
      simp [word]
    · rfl

/-! ## Numbers -/

theorem Breaks.moreDigits_eq {s : List Symbol} (h : Breaks s) : moreDigits Char.isDigit s = 0 := by
  cases s with
  | nil => rfl
  | cons x rest =>
    obtain ⟨c, hc, rfl⟩ := h x rfl
    have : ∀ c ∈ breakChars, c.isDigit = false ∧ c ≠ '_' := by decide
    obtain ⟨digit, underscore⟩ := this c hc
    unfold moreDigits
    split
    · rename_i e
      cases e
      exact absurd rfl underscore
    · rename_i e
      cases e
      simp [digit]
    · rfl

theorem Breaks.exponent_eq {s : List Symbol} (h : Breaks s) : exponent s = 0 := by
  cases s with
  | nil => rfl
  | cons x rest =>
    obtain ⟨c, hc, rfl⟩ := h x rfl
    have : ∀ c ∈ breakChars, c ≠ 'e' ∧ c ≠ 'E' := by decide
    simp [exponent, this c hc]

theorem moreDigits_append {ds : List Char} (h : ∀ d ∈ ds, d.isDigit = true) {rest : List Symbol}
    (stop : moreDigits Char.isDigit rest = 0) :
    moreDigits Char.isDigit (ds.map .char ++ rest) = ds.length := by
  induction ds with
  | nil => exact stop
  | cons d ds ih =>
    simp only [List.mem_cons, forall_eq_or_imp] at h
    have : d ≠ '_' := by
      rintro rfl
      exact absurd h.1 (by decide)
    rw [List.map_cons, List.cons_append, moreDigits, if_pos h.1, ih h.2, List.length_cons, Nat.add_comm]
    intro _ _ _ e
    exact absurd e this

theorem digitRun_append {ds : List Char} (h : ∀ d ∈ ds, d.isDigit = true) (some : ds ≠ [])
    {rest : List Symbol} (stop : moreDigits Char.isDigit rest = 0) :
    digitRun Char.isDigit (ds.map .char ++ rest) = ds.length := by
  cases ds with
  | nil => exact absurd rfl some
  | cons d ds =>
    simp only [List.mem_cons, forall_eq_or_imp] at h
    rw [List.map_cons, List.cons_append, digitRun, if_pos h.1, moreDigits_append h.2 stop,
      List.length_cons, Nat.add_comm]

/-- A point stands in a number only once. -/
theorem moreDigits_point (rest : List Symbol) : moreDigits Char.isDigit (.char '.' :: rest) = 0 := by
  unfold moreDigits
  split
  · rename_i e
    cases e
  · rename_i e
    cases e
    rfl
  · rfl

open NumberLiteral in
theorem fractionOrExponent_parts (p : Parts) {rest : List Symbol} (h : Breaks rest)
    (point : rest.head? ≠ .some (.char '.')) :
    fractionOrExponent ((if p.fraction = [] then [] else '.' :: p.fraction).map .char ++ rest) =
      (if p.fraction = [] then [] else '.' :: p.fraction).length := by
  split
  · simp only [List.map_nil, List.nil_append, List.length_nil]
    unfold fractionOrExponent
    split
    · exact absurd rfl point
    · exact h.exponent_eq
  · rename_i some
    have run := digitRun_append p.fraction_digits some h.moreDigits_eq
    simp only [List.map_cons, List.cons_append, fractionOrExponent, run, List.length_cons]
    rw [← List.length_map (f := Symbol.char), List.drop_left, h.exponent_eq]
    omega

open NumberLiteral in
theorem wholePart_parts (p : Parts) {rest : List Symbol} (stop : moreDigits Char.isDigit rest = 0) :
    wholePart (p.whole.map .char ++ rest) = p.whole.length := by
  have run := digitRun_append p.whole_digits p.some stop
  rcases p.lead with zero | nonzero
  · rw [zero] at run ⊢
    simp only [List.map_cons, List.map_nil, List.cons_append, List.nil_append] at run ⊢
    unfold wholePart
    split
    · rename_i d more e
      cases e
      have : ¬ (d ≠ '0' ∧ d.isDigit = true) := by
        rintro ⟨-, digit⟩
        rw [digitRun, if_pos (by decide)] at run
        simp only [List.length_cons, List.length_nil, Nat.zero_add, Nat.add_eq_left] at run
        unfold moreDigits at run
        split at run
        · rename_i e
          cases e
          exact absurd digit (by decide)
        · rename_i e
          cases e
          rw [if_pos digit] at run
          omega
        · rename_i e
          exact e _ _ rfl
      rw [if_neg this]
      rfl
    · exact run
  · unfold wholePart
    split
    · rename_i e
      obtain ⟨d, ws, hw⟩ := List.exists_cons_of_ne_nil p.some
      rw [hw] at e nonzero
      cases (List.cons.inj e).1
      exact absurd rfl nonzero
    · exact run

open NumberLiteral in
theorem decimal_parts (p : Parts) {rest : List Symbol} (h : Breaks rest)
    (point : rest.head? ≠ .some (.char '.')) : decimal (p.text.map .char ++ rest) = p.text.length := by
  have tail := fractionOrExponent_parts p h point
  have stop : moreDigits Char.isDigit
      ((if p.fraction = [] then [] else '.' :: p.fraction).map .char ++ rest) = 0 := by
    split
    · exact h.moreDigits_eq
    · exact moreDigits_point _
  have whole := wholePart_parts p stop
  have run := digitRun_append p.whole_digits p.some stop
  simp only [Parts.text, List.map_append, List.append_assoc, List.length_append]
  generalize (if p.fraction = [] then [] else '.' :: p.fraction) = fraction at *
  have drop : (p.whole.map Symbol.char ++ (fraction.map Symbol.char ++ rest)).drop p.whole.length =
      fraction.map .char ++ rest := by
    rw [← List.length_map (f := Symbol.char), List.drop_left]
  simp only [decimal, whole, drop, tail]
  cases fraction with
  | nil =>
    have : startsWith ['n'] rest = false := by
      cases rest with
      | nil => rfl
      | cons x rest =>
        obtain ⟨c, hc, rfl⟩ := h x rfl
        have : ∀ c ∈ breakChars, ('n' == c) = false := by decide
        simp [startsWith, this c hc]
    simp only [List.map_nil, List.nil_append] at run drop ⊢
    simp only [List.length_nil, run, drop, this, Bool.false_eq_true, ↓reduceIte, Nat.add_zero]
  | cons c fraction => simp

open NumberLiteral in
theorem number_parts (p : Parts) {rest : List Symbol} (h : Breaks rest)
    (point : rest.head? ≠ .some (.char '.')) : number (p.text.map .char ++ rest) = p.text.length := by
  have dec := decimal_parts p h point
  obtain ⟨d, more, text, digit, zero⟩ := p.exists_text_eq
  rw [text] at dec ⊢
  simp only [List.map_cons, List.cons_append] at dec ⊢
  unfold number
  split
  · rename_i e
    cases e
    exact absurd digit (by decide)
  · rename_i b tail e
    -- a zero in front stands alone or before the point, and then no base follows it
    have radix : b ∉ ['x', 'X', 'o', 'O', 'b', 'B'] := by
      cases (List.cons.inj e).1
      have e := (List.cons.inj e).2
      rcases zero rfl with rfl | ⟨more, rfl⟩
      · obtain ⟨c, hc, hb⟩ := h (.char b) (by simp only [List.map_nil, List.nil_append] at e; rw [e]; rfl)
        cases hb
        have : ∀ c ∈ breakChars, c ∉ ['x', 'X', 'o', 'O', 'b', 'B'] := by decide
        exact this b hc
      · cases (List.cons.inj e).1
        decide
    simp only [List.mem_cons, List.not_mem_nil, or_false, not_or] at radix
    simp only [radix, or_self, ↓reduceIte, Option.getD_none, dec]
  · rename_i e
    cases e
    rw [if_pos digit, dec]
  · rename_i e
    exact absurd rfl (e d _)

/-! ## Strings -/

/-- The text between the quotes of a string: characters other than the quote, the backslash and what ends
a line, and escapes. No source holds a null character. -/
inductive StringBody : List Char → Prop
  | nil : StringBody []
  | char {c : Char} {rest : List Char} (plain : c ∉ ['"', '\\', '\n', '\r']) (null : c ≠ '\x00')
    (next : StringBody rest) : StringBody (c :: rest)
  | escape {c : Char} {rest : List Char} (single : c ∉ ['x', 'u']) (null : c ≠ '\x00')
    (next : StringBody rest) : StringBody ('\\' :: c :: rest)
  | lineEnd {rest : List Char} (next : StringBody rest) : StringBody ('\\' :: '\r' :: '\n' :: rest)
  | hex {a b : Char} {rest : List Char} (ha : isHexDigit a = true) (hb : isHexDigit b = true)
    (next : StringBody rest) : StringBody ('\\' :: 'x' :: a :: b :: rest)
  | code {digits rest : List Char} (four : digits.length = 4)
    (hex : ∀ d ∈ digits, isHexDigit d = true) (next : StringBody rest) :
    StringBody ('\\' :: 'u' :: (digits ++ rest))
  | braced {digits rest : List Char} (some : digits ≠ [])
    (hex : ∀ d ∈ digits, isHexDigit d = true) (next : StringBody rest) :
    StringBody ('\\' :: 'u' :: '\x7b' :: (digits ++ '\x7d' :: rest))

theorem StringBody.tail {c : Char} {rest : List Char} (h : StringBody (c :: rest))
    (plain : c ≠ '\\') : StringBody rest := by
  cases h with
  | char _ _ next => exact next
  | escape => exact absurd rfl plain
  | lineEnd => exact absurd rfl plain
  | hex => exact absurd rfl plain
  | code => exact absurd rfl plain
  | braced => exact absurd rfl plain

theorem StringBody.drop {xs rest : List Char} (h : StringBody (xs ++ rest))
    (plain : ∀ c ∈ xs, c ≠ '\\') : StringBody rest := by
  induction xs with
  | nil => exact h
  | cons c xs ih =>
    simp only [List.mem_cons, forall_eq_or_imp] at plain
    exact ih (h.tail plain.1) plain.2

theorem stringFrom_skip (quote : Char) (xs ys : List Symbol) :
    stringFrom quote xs.length (xs ++ ys) = (stringFrom quote 0 ys).map (xs.length + ·) := by
  induction xs with
  | nil => simp
  | cons x xs ih =>
    simp only [List.length_cons, List.cons_append, stringFrom, ih, Option.map_map]
    congr 1
    funext n
    simp only [Function.comp_apply]
    omega

theorem stringFrom_piece {x : Symbol} {rest : List Symbol} {n : Nat} (open_ : x ∉ [.char '"', .char '\n', .char '\r'])
    (h : stringPiece? (x :: rest) = some (n + 1)) :
    stringFrom '"' 0 (x :: rest) = (stringFrom '"' n rest).map (1 + ·) := by
  have stop : stringEnd? '"' (x :: rest) = none := by
    simp only [List.mem_cons, List.not_mem_nil, or_false, not_or] at open_
    cases x with
    | stray b => simp [stringEnd?, startsWith]
    | char c =>
      simp only [Symbol.char.injEq] at open_
      simp [stringEnd?, startsWith, Ne.symm open_.1, Ne.symm open_.2.1, Ne.symm open_.2.2]
  simp only [stringFrom, stop, h]

theorem runLength_take (p : Symbol → Bool) (s : List Symbol) :
    ∃ xs, xs <+: s ∧ xs.length = runLength p s ∧ ∀ x ∈ xs, p x = true := by
  induction s with
  | nil => exact ⟨[], List.nil_prefix, rfl, by simp⟩
  | cons x s ih =>
    rw [runLength]
    split
    · rename_i hx
      obtain ⟨xs, hp, hl, hall⟩ := ih
      refine ⟨x :: xs, List.cons_prefix_cons.mpr ⟨rfl, hp⟩, by simp [hl, Nat.add_comm], ?_⟩
      simpa [hx] using hall
    · exact ⟨[], List.nil_prefix, rfl, by simp⟩

/-- An escape that names no code takes its character, and a few more that stand for themselves. -/
theorem escape?_single {c : Char} (single : c ∉ ['x', 'u']) (rest : List Symbol) :
    ∃ xs, (∀ x ∈ xs, x ∉ [Symbol.char '\\', .char '"']) ∧ xs <+: rest ∧
      escape? (.char c :: rest) = some (1 + xs.length) := by
  simp only [List.mem_cons, List.not_mem_nil, or_false, not_or] at single
  have open_ : escape? (.char c :: rest) =
      if isOctalDigit c then some (1 + runLength (·.satisfies isOctalDigit) (rest.take 2))
      else if (c == '\r' || c == '?') && rest.head?.any (·.satisfies isLineBreak) then some 2
      else some 1 := by
    unfold escape?
    split <;> simp_all
  rw [open_]
  split
  · obtain ⟨xs, hp, hl, hall⟩ := runLength_take (·.satisfies isOctalDigit) (rest.take 2)
    refine ⟨xs, fun x hx => ?_, hp.trans ( List.take_prefix 2 rest), by rw [hl]⟩
    have := hall x hx
    simp only [List.mem_cons, List.not_mem_nil, or_false, not_or]
    constructor <;> (rintro rfl; revert this; decide)
  split
  · rename_i h
    simp only [Bool.and_eq_true] at h
    cases rest with
    | nil => simp at h
    | cons y rest =>
      refine ⟨[y], fun x hx => ?_, List.cons_prefix_cons.mpr ⟨rfl, List.nil_prefix⟩, rfl⟩
      obtain rfl : x = y := by simpa using hx
      have := h.2
      simp only [List.head?_cons, Option.any_some] at this
      simp only [List.mem_cons, List.not_mem_nil, or_false, not_or]
      constructor <;> (rintro rfl; revert this; decide)
  · exact ⟨[], by simp, List.nil_prefix, rfl⟩

/-- A text without quotes at the start of what stands before a quote lies before the quote. -/
theorem prefix_before_quote {xs : List Symbol} {body : List Char} {rest : List Symbol}
    (quote : .char '"' ∉ xs) (h : xs <+: body.map .char ++ .char '"' :: rest) :
    ∃ front back : List Char, body = front ++ back ∧ xs = front.map .char := by
  induction xs generalizing body with
  | nil => exact ⟨[], body, rfl, rfl⟩
  | cons x xs ih =>
    simp only [List.mem_cons, not_or] at quote
    cases body with
    | nil =>
      simp only [List.map_nil, List.nil_append, List.cons_prefix_cons] at h
      exact absurd h.1.symm quote.1
    | cons c body =>
      simp only [List.map_cons, List.cons_append, List.cons_prefix_cons] at h
      obtain ⟨front, back, rfl, rfl⟩ := ih quote.2 h.2
      exact ⟨c :: front, back, rfl, by rw [h.1]; rfl⟩

theorem stringPiece?_char {c : Char} (plain : c ∉ ['"', '\\', '\n', '\r']) (rest : List Symbol) :
    stringPiece? (.char c :: rest) = some 1 := by
  simp only [List.mem_cons, List.not_mem_nil, or_false, not_or] at plain
  unfold stringPiece?
  split
  · rename_i e
    cases e
  · rename_i e
    cases e
    exact absurd rfl plain.2.1
  · rename_i e
    cases e
    simp [plain]

theorem stringFrom_char {c : Char} (plain : c ∉ ['"', '\\', '\n', '\r']) (rest : List Symbol) :
    stringFrom '"' 0 (.char c :: rest) = (stringFrom '"' 0 rest).map (1 + ·) := by
  refine stringFrom_piece ?_ (stringPiece?_char plain rest)
  simp only [List.mem_cons, List.not_mem_nil, or_false, not_or] at plain
  simp [plain]

theorem stringFrom_escape {rest : List Symbol} {n : Nat} (h : escape? rest = some n) :
    stringFrom '"' 0 (.char '\\' :: rest) = (stringFrom '"' n rest).map (1 + ·) := by
  refine stringFrom_piece (by decide) ?_
  rw [stringPiece?, h, Option.map_some, Nat.add_comm]

theorem escape?_hex {a b : Char} (ha : isHexDigit a = true) (hb : isHexDigit b = true)
    (rest : List Symbol) : escape? (.char 'x' :: .char a :: .char b :: rest) = some 3 := by
  simp [escape?, Symbol.satisfies, ha, hb]

theorem escape?_code {digits : List Char} (four : digits.length = 4)
    (hex : ∀ d ∈ digits, isHexDigit d = true) (rest : List Symbol) :
    escape? (.char 'u' :: (digits.map .char ++ rest)) = some 5 := by
  simp [escape?, unicodeEscape?_four four hex]

theorem escape?_braced {digits : List Char} (some : digits ≠ [])
    (hex : ∀ d ∈ digits, isHexDigit d = true) (rest : List Symbol) :
    escape? (.char 'u' :: .char '\x7b' :: (digits.map .char ++ .char '\x7d' :: rest)) =
      .some (digits.length + 3) := by
  simp [escape?, unicodeEscape?_braced some hex]
  omega

/-- A string ends at its closing quote. -/
theorem stringFrom_body {body : List Char} (h : StringBody body) (rest : List Symbol) :
    stringFrom '"' 0 (body.map .char ++ .char '"' :: rest) = some (body.length + 1) := by
  generalize hn : body.length = n
  induction n using Nat.strongRecOn generalizing body with
  | ind n ih =>
    subst hn
    -- behind what an escape takes stands a shorter body
    have behind (xs more : List Char) (e : body = '\\' :: (xs ++ more)) (hm : StringBody more)
        (he : escape? (xs.map .char ++ (more.map .char ++ .char '"' :: rest)) = some xs.length) :
        stringFrom '"' 0 (body.map .char ++ .char '"' :: rest) = some (body.length + 1) := by
      have skip := stringFrom_skip '"' (xs.map .char) (more.map .char ++ .char '"' :: rest)
      have short : more.length < body.length := by
        simp only [e, List.length_cons, List.length_append]
        omega
      rw [List.length_map] at skip
      rw [e, List.map_cons, List.cons_append, List.map_append, List.append_assoc, stringFrom_escape he,
        skip, ih more.length short hm rfl]
      simp only [Option.map_some, List.length_cons, List.length_append]
      congr 1
      omega
    cases h with
    | nil => rfl
    | char plain _ next =>
      rw [List.map_cons, List.cons_append, stringFrom_char plain, ih _ (by simp) next rfl]
      simp only [Option.map_some, List.length_cons]
      congr 1
      omega
    | @escape c more single _ next =>
      obtain ⟨xs, plain, hp, he⟩ := escape?_single single (more.map .char ++ .char '"' :: rest)
      obtain ⟨front, back, rfl, rfl⟩ := prefix_before_quote (fun h => plain _ h (by simp)) hp
      have plain' : ∀ d ∈ front, d ≠ '\\' := by
        rintro d hd rfl
        exact plain (.char '\\') (List.mem_map_of_mem hd) (by simp)
      refine behind (c :: front) back rfl (next.drop plain') ?_
      simpa [List.append_assoc, Nat.add_comm] using he
    | lineEnd next => exact behind ['\r', '\n'] _ rfl next rfl
    | @hex a b _ ha hb next => exact behind ['x', a, b] _ rfl next (escape?_hex ha hb _)
    | @code digits _ four hex next =>
      refine behind ('u' :: digits) _ rfl next ?_
      simpa [four] using escape?_code four hex _
    | @braced digits more some hex next =>
      refine behind ('u' :: '\x7b' :: (digits ++ ['\x7d'])) more (by simp) next ?_
      simpa using escape?_braced some hex _

/-- A string in double quotes is read up to its closing quote. -/
theorem string?_body {body : List Char} (h : StringBody body) (rest : List Symbol) :
    string? (.char '"' :: (body.map .char ++ .char '"' :: rest)) = some (body.length + 2) := by
  rw [string?, stringFrom_body h, Option.map_some]
  congr 1
  omega

/-! ## Regular expressions -/

/-- The text between the brackets of a class of a regular expression. -/
inductive ClassBody : List Char → Prop
  | nil : ClassBody []
  | char {c : Char} {rest : List Char} (plain : c ∉ [']', '\\', '\n']) (null : c ≠ '\x00')
    (next : ClassBody rest) : ClassBody (c :: rest)
  | escape {c : Char} {rest : List Char} (line : c ≠ '\n') (null : c ≠ '\x00') (next : ClassBody rest) :
    ClassBody ('\\' :: c :: rest)

/-- The text between the slashes of a regular expression: characters, escaped characters and classes. -/
inductive RegexBody : List Char → Prop
  | nil : RegexBody []
  | char {c : Char} {rest : List Char} (plain : c ∉ ['/', '\\', '[', '\n']) (null : c ≠ '\x00')
    (next : RegexBody rest) : RegexBody (c :: rest)
  | escape {c : Char} {rest : List Char} (line : c ≠ '\n') (null : c ≠ '\x00') (next : RegexBody rest) :
    RegexBody ('\\' :: c :: rest)
  | oneOf {set rest : List Char} (body : ClassBody set) (next : RegexBody rest) :
    RegexBody ('[' :: (set ++ ']' :: rest))

theorem regexClass?_body {set : List Char} (h : ClassBody set) (rest : List Symbol) :
    regexClass? 0 (set.map .char ++ .char ']' :: rest) = some (set.length + 1) := by
  induction h with
  | nil => rfl
  | char plain _ _ ih =>
    simp only [List.mem_cons, List.not_mem_nil, or_false, not_or] at plain
    rw [List.map_cons, List.cons_append, regexClass?]
    simp only [Symbol.char.injEq, plain, ↓reduceIte, ih, Option.map_some, List.length_cons]
    congr 1
    omega
  | escape line _ _ ih =>
    simp [regexClass?, line, ih]
    omega

theorem regexFrom_skip (xs ys : List Symbol) :
    regexFrom xs.length (xs ++ ys) = xs.length + regexFrom 0 ys := by
  induction xs with
  | nil => simp
  | cons x xs ih =>
    simp only [List.length_cons, List.cons_append, regexFrom, ih]
    omega

theorem regexFrom_piece (x : Symbol) (xs ys : List Symbol)
    (h : regexPiece (x :: (xs ++ ys)) = xs.length + 1) :
    regexFrom 0 (x :: (xs ++ ys)) = xs.length + 1 + regexFrom 0 ys := by
  simp only [regexFrom, h, regexFrom_skip]
  omega

theorem regexPiece_char {c : Char} (plain : c ∉ ['/', '\\', '[', '\n']) (rest : List Symbol) :
    regexPiece (.char c :: rest) = 1 := by
  simp only [List.mem_cons, List.not_mem_nil, or_false, not_or] at plain
  unfold regexPiece
  split
  · rename_i e
    cases e
  · rename_i e
    cases e
    exact absurd rfl plain.2.2.1
  · rename_i e
    cases e
    exact absurd rfl plain.2.1
  · rename_i e
    cases e
    simp [plain]

/-- A regular expression ends at its closing slash. -/
theorem regexFrom_body {body : List Char} (h : RegexBody body) (rest : List Symbol) :
    regexFrom 0 (body.map .char ++ .char '/' :: rest) = body.length := by
  induction h with
  | nil => rfl
  | @char c more plain _ _ ih =>
    have := regexFrom_piece (.char c) [] (more.map .char ++ .char '/' :: rest) (regexPiece_char plain _)
    simp only [List.nil_append, List.length_nil, ih] at this
    rw [List.map_cons, List.cons_append, this, List.length_cons]
    omega
  | @escape c more line _ _ ih =>
    have := regexFrom_piece (.char '\\') [.char c] (more.map .char ++ .char '/' :: rest)
      (by simp [regexPiece, line])
    simp only [List.cons_append, List.nil_append, List.length_cons, List.length_nil, ih] at this
    simp only [List.map_cons, List.cons_append, this, List.length_cons]
    omega
  | @oneOf set more body _ ih =>
    have := regexFrom_piece (.char '[') (set.map .char ++ [Symbol.char ']']) (more.map .char ++ .char '/' :: rest)
      (by simp [regexPiece, regexClass?_body body]; omega)
    simp only [List.append_assoc, List.cons_append, List.nil_append, List.length_append, List.length_map,
      List.length_cons, List.length_nil, ih] at this
    simp only [List.map_cons, List.map_append, List.cons_append, List.append_assoc, this, List.length_cons,
      List.length_append]
    omega

theorem comment?_char {c : Char} (h : c ≠ '/') (rest : List Symbol) : comment? (.char c :: rest) = none := by
  unfold comment?
  split
  · rename_i e
    cases e
    exact absurd rfl h
  · rename_i e
    cases e
    exact absurd rfl h
  · rfl

theorem blanksAndComment?_char {c : Char} (blank : isBlank c = false) (h : c ≠ '/') (rest : List Symbol) :
    blanksAndComment? (.char c :: rest) = none := by
  have : blanks (.char c :: rest) = 0 := by simp [blanks, runLength, Symbol.satisfies, blank]
  rw [blanksAndComment?, this, List.drop_zero, comment?_char h, Option.map_none]

theorem blanksAndComment?_blank {c : Char} (blank : isBlank c = true) (rest : List Symbol) :
    blanksAndComment? (.char c :: rest) = (blanksAndComment? rest).map (1 + ·) := by
  have : blanks (.char c :: rest) = 1 + blanks rest := by simp [blanks, runLength, Symbol.satisfies, blank]
  rw [blanksAndComment?, this, Nat.add_comm 1, List.drop_succ_cons, blanksAndComment?, Option.map_map]
  congr 1
  funext n
  simp only [Function.comp_apply]
  omega

/-- No comment stands in front of a regular expression's text. -/
theorem blanksAndComment?_regex {body : List Char} (h : RegexBody body) {rest : List Symbol}
    (close : comment? (.char '/' :: rest) = none) :
    blanksAndComment? (body.map .char ++ .char '/' :: rest) = none := by
  induction h with
  | nil =>
    have : blanks (.char '/' :: rest) = 0 := by
      have : isBlank '/' = false := by decide
      simp [blanks, runLength, Symbol.satisfies, this]
    rw [List.map_nil, List.nil_append, blanksAndComment?, this, List.drop_zero, close, Option.map_none]
  | @char c more plain _ _ ih =>
    rw [List.map_cons, List.cons_append]
    by_cases blank : isBlank c = true
    · rw [blanksAndComment?_blank blank, ih, Option.map_none]
    · rw [Bool.not_eq_true] at blank
      exact blanksAndComment?_char blank (fun e => plain (by simp [e])) _
  | escape => exact blanksAndComment?_char (by decide) (by decide) _
  | oneOf => exact blanksAndComment?_char (by decide) (by decide) _

theorem commentsFrom_none (comment : List Symbol → Option Nat) (other : List Symbol → Nat)
    {s : List Symbol} (h : comment s = none) : commentsFrom comment other 0 s = 0 := by
  cases s with
  | nil => rfl
  | cons x s => simp only [commentsFrom, h]

/-- A regular expression is read up to its closing slash. -/
theorem regex?_body {body : List Char} (h : RegexBody body) (some : body ≠ []) {rest : List Symbol}
    (close : comment? (.char '/' :: rest) = none) :
    regex? (.char '/' :: (body.map .char ++ .char '/' :: rest)) = .some (body.length + 2) := by
  have lead := commentsFrom_none blanksAndComment? (regexFrom 0) (blanksAndComment?_regex h close)
  have from_ := regexFrom_body h rest
  have tail : (body.map Symbol.char ++ .char '/' :: rest).drop body.length = .char '/' :: rest := by
    rw [← List.length_map (f := Symbol.char), List.drop_left]
  have gap := commentsFrom_none (s := .char '/' :: rest)
    (fun s => if startsWith ['/'] s then none else (markupComment? s).or (blanksAndComment? s))
    (fun _ => 0) (by simp [startsWith])
  have pos : 0 < body.length := List.length_pos_iff.mpr some
  obtain ⟨n, hn⟩ : ∃ n, body.length = n + 1 := ⟨body.length - 1, by omega⟩
  rw [hn] at from_ tail ⊢
  simp only [regex?, lead, List.drop_zero, from_, Nat.zero_add, tail, gap]
  congr 1
  omega

/-- The letters that can be flags of a regular expression. -/
def flagChars : List Char := ['d', 'g', 'i', 'm', 's', 'u', 'v', 'y']

theorem regexFlags_append {flags : List Char} (h : ∀ c ∈ flags, c ∈ flagChars) {rest : List Symbol}
    (stop : Breaks rest) : regexFlags (flags.map .char ++ rest) = flags.length := by
  have letter : ∀ c ∈ flagChars, ('a' ≤ c && c ≤ 'z') = true ∧ c ≠ 'n' := by decide
  have run : runLength (·.satisfies fun c => 'a' ≤ c && c ≤ 'z') (flags.map Symbol.char ++ rest) =
      flags.length := by
    rw [runLength_append, List.length_map]
    · intro x hx
      obtain ⟨c, hc, rfl⟩ := List.mem_map.mp hx
      exact (letter c (h c hc)).1
    · intro x hx
      obtain ⟨c, hc, rfl⟩ := stop x hx
      have : ∀ c ∈ breakChars, ('a' ≤ c && c ≤ 'z') = false := by decide
      exact this c hc
  have take : (flags.map Symbol.char ++ rest).take flags.length = flags.map .char := by
    rw [← List.length_map (f := Symbol.char), List.take_left]
  have word (w : String) (hw : 'n' ∈ w.toList) : flags.map Symbol.char ≠ Symbol.ofString w := by
    intro e
    have e : flags = w.toList := List.map_injective_iff.mpr Symbol.char_injective e
    exact (letter 'n' (h 'n' (e ▸ hw))).2 rfl
  simp only [regexFlags, run, take]
  rw [if_neg (not_or.mpr ⟨word "in" (by decide), word "instanceof" (by decide)⟩)]

/-- No comment starts with the closing slash of a regular expression. -/
theorem comment?_flags {flags : List Char} (h : ∀ flag ∈ flags, flag ∈ flagChars) {rest : List Symbol}
    (stop : Breaks rest) : comment? (.char '/' :: (flags.map .char ++ rest)) = none := by
  have other : ∀ c ∈ flagChars ++ breakChars, c ≠ '/' ∧ c ≠ '*' := by decide
  have next : ∀ x ∈ (flags.map Symbol.char ++ rest).head?, ∃ c ∈ flagChars ++ breakChars, x = .char c := by
    cases flags with
    | nil => exact fun x mem => (stop x mem).imp fun c h => ⟨List.mem_append_right _ h.1, h.2⟩
    | cons flag flags =>
      rintro x mem
      cases mem
      exact ⟨flag, List.mem_append_left _ (h flag (by simp)), rfl⟩
  generalize flags.map Symbol.char ++ rest = s at next
  unfold comment?
  split
  · rename_i e
    cases e
    obtain ⟨c, mem, e⟩ := next _ rfl
    cases e
    exact absurd rfl (other _ mem).1
  · rename_i e
    cases e
    obtain ⟨c, mem, e⟩ := next _ rfl
    cases e
    exact absurd rfl (other _ mem).2
  · rfl

end Lexical
end IndexedLoop
