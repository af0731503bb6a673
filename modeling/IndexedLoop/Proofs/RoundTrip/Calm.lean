import IndexedLoop.Proofs.RoundTrip.View

/-!
# Texts that start with a token

A text is `Calm` if its first token is seen at every slot, also behind a space and behind a line break at
which no semicolon is inserted (`Calm.view`, `Calm.view_space`, `Calm.view_newline`). A text that starts
with a name, an operator or most other characters is calm.
-/

namespace IndexedLoop

open Lexical

namespace Semicolon

theorem passedLength_space (s : List Symbol) : passedLength (.char ' ' :: s) = 1 + passedLength s := by
  have line : runLength (fun x => x.satisfies isAsciiBlank && !x.satisfies isLineBreak) (.char ' ' :: s) =
      1 + runLength (fun x => x.satisfies isAsciiBlank && !x.satisfies isLineBreak) s := rfl
  simp only [passedLength, line]
  generalize runLength (fun x => x.satisfies isAsciiBlank && !x.satisfies isLineBreak) s = n
  have drop (k : Nat) : (Symbol.char ' ' :: s).drop (1 + k) = s.drop k := by
    rw [Nat.add_comm, List.drop_succ_cons]
  rw [drop]
  split
  · rfl
  · rename_i x rest _
    split
    · omega
    · split
      · rw [Nat.add_assoc 1, Nat.add_assoc 1, drop]
        omega
      · rfl

theorem insertsAt_space (operand : Bool) (s : List Symbol) :
    insertsAt operand (.char ' ' :: s) = insertsAt operand s := rfl

theorem not_asciiBlank {c : Char} (blank : isBlank c = false) : isAsciiBlank c = false := by
  simp only [isBlank, Bool.or_eq_false_iff] at blank
  exact blank.1.1.1.1.1

theorem not_separator {c : Char} (blank : isBlank c = false) : isSeparator c = false := by
  simp only [isBlank, Bool.or_eq_false_iff] at blank
  exact blank.1.1.1.2

theorem not_lineBreak {c : Char} (blank : isBlank c = false) : isLineBreak c = false := by
  have line : c ≠ '\n' := by
    rintro rfl
    exact absurd blank (by decide)
  simp [isLineBreak, not_separator blank, line]

/-- No semicolon is inserted in front of a character that is no blank, no closing brace and starts no
comment. -/
theorem insertsAt_char {c : Char} {rest : List Symbol} (blank : isBlank c = false) (brace : c ≠ '\x7d')
    (slash : c = '/' → ∀ x ∈ rest.head?, x ∉ [.char '/', .char '*']) (operand : Bool) :
    insertsAt operand (.char c :: rest) = false := by
  by_cases hc : c = '/'
  · subst hc
    have none : skip false false (.char ' ' :: rest) (.char '/' :: rest) = .atSlash := by
      have run : runLength (·.satisfies isAsciiBlank) (.char '/' :: rest) = 0 := rfl
      simp only [skip, run, List.drop_zero]
      split
      · rename_i e
        cases e
        exact absurd (slash rfl _ rfl) (by simp)
      · rename_i e
        cases e
        exact absurd (slash rfl _ rfl) (by simp)
      · rfl
      · rename_i e
        exact absurd rfl (e _)
    simp only [insertsAt, scan, none]
  · have other (go : List Symbol → Bool) : step go (.char c :: rest) = false := by
      simp [step, brace, Symbol.satisfies, not_asciiBlank blank, not_lineBreak blank]
    unfold insertsAt scan
    split
    · rename_i e
      cases e
    · rename_i e
      cases e
    · rename_i e
      cases e
      exact absurd rfl hc
    · exact other _

end Semicolon

/-- A text that starts with a token, whatever stands in front: with no blank, no closing brace, no
comment and no question mark, also where a line starts with a sign or a word that could go on with the
line before. -/
structure Calm (s : List Symbol) : Prop where
  first : ∃ c rest, s = .char c :: rest ∧ isBlank c = false ∧ c ≠ '\x7d' ∧
    (c = '/' → ∀ x ∈ rest.head?, x ∉ [.char '/', .char '*'])
  markup : startsWith ['<', '!', '-', '-'] s = false ∧ startsWith ['-', '-', '>'] s = false
  asks : asksAt s = false
  lead : asksAt (s.drop (Semicolon.leadLength s)) = false

namespace Calm

open Semicolon

variable {s : List Symbol} (h : Calm s)
include h

theorem blanks_eq : blanks s = 0 := by
  obtain ⟨c, rest, rfl, blank, -⟩ := h.first
  simp [blanks, runLength, Symbol.satisfies, blank]

theorem insertsAt_eq (operand : Bool) : insertsAt operand s = false := by
  obtain ⟨c, rest, rfl, blank, brace, slash⟩ := h.first
  exact insertsAt_char blank brace slash operand

theorem comment_eq : comment? s = none := by
  obtain ⟨c, rest, rfl, blank, brace, slash⟩ := h.first
  by_cases hc : c = '/'
  · subst hc
    unfold comment?
    split
    · rename_i e
      cases e
      exact absurd (slash rfl _ rfl) (by simp)
    · rename_i e
      cases e
      exact absurd (slash rfl _ rfl) (by simp)
    · rfl
  · exact comment?_char hc rest

theorem blanksAndComment_eq : blanksAndComment? s = none := by
  rw [blanksAndComment?, h.blanks_eq, List.drop_zero, h.comment_eq, Option.map_none]

theorem markupBlanks_eq : runLength (·.satisfies fun c => isAsciiBlank c || isSeparator c) s = 0 := by
  obtain ⟨c, rest, rfl, blank, -⟩ := h.first
  simp [runLength, Symbol.satisfies, not_asciiBlank blank, not_separator blank]

theorem markupComment_eq : markupComment? s = none := by
  simp [markupComment?, h.markupBlanks_eq, h.markup]

theorem asciiBlanks_eq : runLength (·.satisfies isAsciiBlank) s = 0 := by
  obtain ⟨c, rest, rfl, blank, -⟩ := h.first
  simp [runLength, Symbol.satisfies, not_asciiBlank blank]

theorem passed_asks : asksAt (s.drop (passedLength s)) = false := by
  have lead := h.lead
  have asks := h.asks
  obtain ⟨c, rest, rfl, blank, -⟩ := h.first
  have line : runLength (fun x => x.satisfies isAsciiBlank && !x.satisfies isLineBreak) (.char c :: rest) = 0 := by
    simp [runLength, Symbol.satisfies, not_asciiBlank blank]
  have break_ : Symbol.satisfies isLineBreak (.char c) = false := not_lineBreak blank
  simp only [passedLength, line, List.drop_zero, break_]
  by_cases hc : c = '/'
  · subst hc
    exact lead
  · have : Symbol.isChar '/' (.char c) = false := by simp [Symbol.isChar, hc]
    simpa [this] using asks

theorem beforeQuestionMark_eq (ends : Bool) : beforeQuestionMark? ends s = none := by
  have := h.passed_asks
  cases ends <;> simp [beforeQuestionMark?, this, h.asciiBlanks_eq, h.asks]

/-- Every cursor sees the first token. -/
theorem view (slot : Slot) :
    View.of slot s = ⟨(Token.read slot s).1, s, s.drop (Token.read slot s).2⟩ := by
  have := View.of_eq slot (fun _ => h.insertsAt_eq _) (fun _ => h.beforeQuestionMark_eq _)
    (fun _ _ => h.markupComment_eq) h.blanksAndComment_eq
  simpa [h.blanks_eq] using this

end Calm

/-! ## Texts behind which nothing ends -/

/-- No comment starts a text, not even behind blanks. -/
structure Silent (s : List Symbol) : Prop where
  markup : markupComment? s = none
  comment : blanksAndComment? s = none

theorem Calm.silent {s : List Symbol} (h : Calm s) : Silent s := ⟨h.markupComment_eq, h.blanksAndComment_eq⟩

namespace Silent

theorem nil : Silent [] := ⟨rfl, rfl⟩

theorem of_char {c : Char} (blank : isBlank c = false) (h : c ∉ ['/', '<', '-']) (rest : List Symbol) :
    Silent (.char c :: rest) := by
  simp only [List.mem_cons, List.not_mem_nil, or_false, not_or] at h
  refine ⟨?_, blanksAndComment?_char blank h.1 rest⟩
  simp [markupComment?, runLength, Symbol.satisfies, Semicolon.not_asciiBlank blank,
    Semicolon.not_separator blank, startsWith, Ne.symm h.2.1, Ne.symm h.2.2]

variable {s : List Symbol} (h : Silent s) {b : Char} (mem : b ∈ [' ', '\n'])

include h mem

theorem blank : Silent (.char b :: s) := by
  have blanks : ∀ b ∈ [' ', '\n'], isBlank b = true ∧ (isAsciiBlank b || isSeparator b) = true := by decide
  obtain ⟨blank, ascii⟩ := blanks b mem
  constructor
  · have markup := h.markup
    have run : runLength (·.satisfies fun c => isAsciiBlank c || isSeparator c) (.char b :: s) =
        1 + runLength (·.satisfies fun c => isAsciiBlank c || isSeparator c) s := if_pos ascii
    rw [markupComment?] at markup ⊢
    simp only [run, Nat.add_comm 1, List.drop_succ_cons]
    split at markup
    · cases markup
    · rename_i other
      exact if_neg other
  · rw [blanksAndComment?_blank blank, h.comment, Option.map_none]

/-- Where no statement ends and no operand is complete, a blank in front changes nothing. -/
theorem view : View.of .plain (.char b :: s) = View.of .plain s := by
  have blanks : ∀ b ∈ [' ', '\n'], isBlank b = true := by decide
  have count : Lexical.blanks (.char b :: s) = Lexical.blanks s + 1 := by
    rw [Nat.add_comm]
    exact if_pos (blanks b mem)
  rw [View.of_eq .plain (fun e => by cases e) (fun e => by cases e) (fun _ _ => (h.blank mem).markup)
      (h.blank mem).comment,
    View.of_eq .plain (fun e => by cases e) (fun e => by cases e) (fun _ _ => h.markup) h.comment, count,
    List.drop_succ_cons]

end Silent

namespace Calm

open Semicolon

variable {s : List Symbol} (h : Calm s)
include h

/-- A blank in front changes nothing where no semicolon is inserted and no question mark follows what
the look ahead passes. -/
theorem view_blank {b : Char} (mem : b ∈ [' ', '\n']) {slot : Slot}
    (inserts : slot.ends = true → insertsAt slot.joins (.char b :: s) = false)
    (passed : asksAt ((Symbol.char b :: s).drop (passedLength (.char b :: s))) = false) :
    View.of slot (.char b :: s) = View.of slot s := by
  have blanks : ∀ b ∈ [' ', '\n'], isBlank b = true ∧ isAsciiBlank b = true := by decide
  obtain ⟨blank, ascii⟩ := blanks b mem
  have count : Lexical.blanks (.char b :: s) = 1 := (if_pos blank).trans (congrArg (1 + ·) h.blanks_eq)
  have run : runLength (·.satisfies isAsciiBlank) (.char b :: s) = 1 :=
    (if_pos ascii).trans (congrArg (1 + ·) h.asciiBlanks_eq)
  have asks (ends : Bool) : beforeQuestionMark? ends (.char b :: s) = none := by
    cases ends
    · simp only [beforeQuestionMark?, run, List.drop_succ_cons, Bool.false_eq_true, ↓reduceIte,
        List.drop_zero, h.asks]
    · simp only [beforeQuestionMark?, ↓reduceIte, passed, Bool.false_eq_true]
  rw [h.view slot, View.of_eq slot inserts (fun _ => asks _) (fun _ _ => (h.silent.blank mem).markup)
    (h.silent.blank mem).comment, count]
  rfl

/-- A space in front changes nothing. -/
theorem view_space (slot : Slot) : View.of slot (.char ' ' :: s) = View.of slot s := by
  refine h.view_blank (by decide) (fun _ => by rw [insertsAt_space]; exact h.insertsAt_eq _) ?_
  rw [passedLength_space, Nat.add_comm, List.drop_succ_cons]
  exact h.passed_asks

/-- Behind a line break the token is seen unless a semicolon is inserted there. -/
theorem view_newline {slot : Slot}
    (inserts : slot.ends = true → insertsAt slot.joins (.char '\n' :: s) = false) :
    View.of slot (.char '\n' :: s) = View.of slot s := by
  have passed : passedLength (.char '\n' :: s) = 1 + leadLength s := by
    show 0 + 1 + runLength (·.satisfies isAsciiBlank) s + leadLength
      ((Symbol.char '\n' :: s).drop (0 + 1 + runLength (·.satisfies isAsciiBlank) s)) = _
    rw [h.asciiBlanks_eq]
    rfl
  refine h.view_blank (by decide) inserts ?_
  rw [passed, Nat.add_comm, List.drop_succ_cons]
  exact h.lead

end Calm

/-! ## Texts that are calm -/

/-- The characters that need a look at what follows them. -/
def restless : List Char := ['\x7d', '/', '<', '-', '+', '.', '?', 'i']

theorem Calm.of_char {c : Char} (blank : isBlank c = false) (h : c ∉ restless) (rest : List Symbol) :
    Calm (.char c :: rest) := by
  simp only [restless, List.mem_cons, List.not_mem_nil, or_false, not_or] at h
  obtain ⟨brace, slash, less, minus, plus, point, mark, letter⟩ := h
  have asks : asksAt (.char c :: rest) = false := by
    unfold asksAt
    split <;> simp_all
  refine ⟨⟨c, rest, rfl, blank, brace, fun e => absurd e slash⟩, ?_, asks, ?_⟩
  · simp [startsWith, Ne.symm less, Ne.symm minus]
  · have : Semicolon.leadLength (.char c :: rest) = 0 := by
      simp [Semicolon.leadLength, Semicolon.startsWithWord, startsWith, Ne.symm letter, slash, point, plus, minus]
    rw [this]
    exact asks

theorem Calm.of_binary (op : BinaryOp) (rest : List Symbol) :
    Calm (Symbol.ofString op.token ++ .char ' ' :: rest) := by
  cases op <;>
    simp only [BinaryOp.token, Symbol.ofString, String.reduceToList, List.map_cons, List.map_nil,
      List.cons_append, List.nil_append] <;>
    exact ⟨⟨_, _, rfl, by decide, by decide, by simp⟩, ⟨rfl, rfl⟩, rfl, rfl⟩

theorem Calm.of_assign (op : AssignOp) (rest : List Symbol) :
    Calm (Symbol.ofString op.token ++ .char ' ' :: rest) := by
  cases op <;>
    simp only [AssignOp.token, Symbol.ofString, String.reduceToList, List.map_cons, List.map_nil,
      List.cons_append, List.nil_append] <;>
    exact ⟨⟨_, _, rfl, by decide, by decide, by simp⟩, ⟨rfl, rfl⟩, rfl, rfl⟩

theorem Calm.of_update (op : UpdateOp) {c : Char} (h : c ≠ '>') (rest : List Symbol) :
    Calm (Symbol.ofString op.token ++ .char c :: rest) := by
  cases op <;>
    simp only [UpdateOp.token, Symbol.ofString, String.reduceToList, List.map_cons, List.map_nil,
      List.cons_append, List.nil_append]
  · exact ⟨⟨_, _, rfl, by decide, by decide, by simp⟩, ⟨rfl, rfl⟩, rfl, rfl⟩
  · refine ⟨⟨_, _, rfl, by decide, by decide, by simp⟩, ⟨rfl, ?_⟩, rfl, rfl⟩
    simp [startsWith, Ne.symm h]

/-! ## Names -/

theorem Lexical.NameText.of_chars {cs : List Char} (h : ∀ c ∈ cs, isWordChar c = true) : NameText cs := by
  induction cs with
  | nil => exact .nil
  | cons c cs ih =>
    simp only [List.mem_cons, forall_eq_or_imp] at h
    exact .char h.1 (ih h.2)

theorem isWordChar_of_hexDigit {c : Char} (h : isHexDigit c = true) : isWordChar c = true := by
  have bound : c.toNat < 128 := by
    simp only [isHexDigit, Char.isDigit, Char.le_def, UInt32.le_iff_toNat_le, Bool.or_eq_true,
      Bool.and_eq_true, decide_eq_true_eq, ge_iff_le] at h
    rcases h with (⟨-, h⟩ | ⟨-, h⟩) | ⟨-, h⟩
    · exact Nat.lt_of_le_of_lt h (by decide)
    · exact Nat.lt_of_le_of_lt h (by decide)
    · exact Nat.lt_of_le_of_lt h (by decide)
  have : ∀ n < 128, isHexDigit (Char.ofNat n) = true → isWordChar (Char.ofNat n) = true := by decide
  rw [← Char.ofNat_toNat c] at h ⊢
  exact this _ bound h

/-- A name holds characters of words and the signs of escapes. -/
theorem Lexical.NameText.chars {cs : List Char} (h : NameText cs) :
    ∀ c ∈ cs, isWordChar c = true ∨ c ∈ ['\\', '\x7b', '\x7d'] := by
  induction h with
  | nil => simp
  | char word _ ih => simpa [word] using ih
  | escape _ hex _ ih =>
    simp only [List.mem_cons, List.mem_append]
    rintro c (rfl | rfl | digit | mem)
    · exact .inr (by simp)
    · exact .inl (by decide)
    · exact .inl (isWordChar_of_hexDigit (hex c digit))
    · simpa using ih c mem
  | braced _ hex _ ih =>
    simp only [List.mem_cons, List.mem_append]
    rintro c (rfl | rfl | rfl | digit | rfl | mem)
    · exact .inr (by simp)
    · exact .inl (by decide)
    · exact .inr (by simp)
    · exact .inl (isWordChar_of_hexDigit (hex c digit))
    · exact .inr (by simp)
    · simpa using ih c mem

theorem Lexical.NameText.not_blank {cs : List Char} (h : NameText cs) : ∀ c ∈ cs, isBlank c = false := by
  intro c mem
  rcases h.chars c mem with word | sign
  · simp only [isWordChar, Bool.not_eq_true', Bool.or_eq_false_iff] at word
    exact word.1.2
  · have : ∀ c ∈ ['\\', '\x7b', '\x7d'], isBlank c = false := by decide
    exact this c sign

theorem Lexical.NameText.not_mem_mark {cs : List Char} (h : NameText cs) : '?' ∉ cs := by
  intro mem
  rcases h.chars '?' mem with word | sign
  · exact absurd word (by decide)
  · exact absurd sign (by decide)

/-- A word that starts a name and what follows it starts the name. -/
theorem prefix_of_startsWith {w cs : List Char} {rest : List Symbol} (hw : ∀ c ∈ w, isWordChar c = true)
    (stop : wordPiece rest = 0) (h : startsWith w (cs.map .char ++ rest) = true) : w <+: cs := by
  induction w generalizing cs with
  | nil => exact List.nil_prefix
  | cons c w ih =>
    simp only [List.mem_cons, forall_eq_or_imp] at hw
    cases cs with
    | nil =>
      cases rest with
      | nil => simp [startsWith] at h
      | cons x rest =>
        cases x with
        | stray b => simp [startsWith] at h
        | char d =>
          simp only [List.map_nil, List.nil_append, startsWith, Bool.and_eq_true, beq_iff_eq] at h
          rw [← h.1, wordPiece_char hw.1] at stop
          cases stop
    | cons d cs =>
      simp only [List.map_cons, List.cons_append, startsWith, Bool.and_eq_true, beq_iff_eq] at h
      exact List.cons_prefix_cons.mpr ⟨h.1, ih hw.2 h.2⟩

theorem asksAt_char {c : Char} (h : c ≠ '?') (rest : List Symbol) : asksAt (.char c :: rest) = false := by
  unfold asksAt
  split
  case h_4 => rfl
  all_goals
    rename_i e
    cases e
    exact absurd rfl h

theorem Lexical.IsName.first {cs : List Char} (h : IsName cs) : ∃ c more, cs = c :: more ∧
    (isWordChar c = true ∨ c = '\\') ∧ c.isDigit = false := by
  obtain ⟨c, hc, digit⟩ := h.start
  cases cs with
  | nil => cases hc
  | cons d cs =>
    cases hc
    refine ⟨c, cs, rfl, ?_, digit⟩
    cases h.text with
    | char word => exact .inl word
    | escape => exact .inr rfl
    | braced => exact .inr rfl

/-- The word that a name goes on with asks no question. -/
theorem asksAt_drop_name {cs w : List Char} {rest : List Symbol} (h : NameText cs)
    (hw : ∀ c ∈ w, isWordChar c = true) (ne : cs ≠ w) (stop : wordPiece rest = 0)
    (starts : startsWith w (cs.map .char ++ rest) = true) :
    asksAt ((cs.map Symbol.char ++ rest).drop w.length) = false := by
  obtain ⟨more, rfl⟩ := prefix_of_startsWith hw stop starts
  have drop : ((w ++ more).map Symbol.char ++ rest).drop w.length = more.map .char ++ rest := by
    rw [List.map_append, List.append_assoc, ← List.length_map (f := Symbol.char), List.drop_left]
  rw [drop]
  cases more with
  | nil => exact absurd (List.append_nil w) ne
  | cons c more =>
    refine asksAt_char ?_ _
    rintro rfl
    exact h.not_mem_mark (by simp)

/-- The signs that start no name. -/
def signs : List Char := ['\x7b', '\x7d', '(', '[', '/', '<', '>', '-', '+', '.', '?', ';', ',', ':', '=', '@', '"']

/-- A name starts with no blank and with no sign. -/
theorem Lexical.IsName.opens {cs : List Char} (h : IsName cs) : ∃ c more, cs = c :: more ∧
    isBlank c = false ∧ c ∉ signs := by
  obtain ⟨c, more, e, word, -⟩ := h.first
  refine ⟨c, more, e, ?_⟩
  rcases word with word | rfl
  · simp only [isWordChar, Bool.not_eq_true', Bool.or_eq_false_iff] at word
    refine ⟨word.1.2, fun hc => ?_⟩
    have : ∀ c ∈ signs, isPunctuation c = true := by decide
    rw [this c hc] at word
    exact absurd word.2 (by decide)
  · decide

theorem Lexical.IsName.of_chars {cs : List Char}
    (h : (cs.all isWordChar && cs.head?.any fun c => !c.isDigit) = true) : IsName cs := by
  simp only [Bool.and_eq_true, List.all_eq_true] at h
  obtain ⟨c, first, digit⟩ := (Option.any_eq_true _ _).mp h.2
  exact ⟨.of_chars h.1, c, first, by simpa using digit⟩

/-- Operators that are signs are not found by a name. -/
theorem Lexical.IsName.find?_eq_none {α : Type} {name : String} (h : IsName name.toList) {words : List String}
    (other : name ∉ words) {token : α → String} {ops : List α} (signs : ∀ op ∈ ops,
      token op ∈ words ∨ (token op).toList.head?.any (fun c => !isWordChar c && c != '\\') = true) :
    ops.find? (fun op => token op == name) = none := by
  rw [List.find?_eq_none]
  intro op mem
  rw [beq_iff_eq]
  rintro rfl
  obtain ⟨c, more, text, start, -⟩ := h.first
  rcases signs op mem with word | sign
  · exact other word
  · rcases start with word | rfl
    · simp [text, word] at sign
    · simp [text] at sign

/-- A name starts a text calmly, unless it is an operator. -/
theorem Calm.of_name {cs : List Char} (h : IsName cs) (operator : cs ∉ ["in".toList, "instanceof".toList])
    {rest : List Symbol} (stop : wordPiece rest = 0) : Calm (cs.map .char ++ rest) := by
  obtain ⟨c, more, e, other⟩ := h.opens
  by_cases letter : c = 'i'
  · subst letter
    have asks : asksAt (cs.map .char ++ rest) = false := by
      rw [e]
      rfl
    have inWord : Semicolon.startsWithWord "in" (cs.map .char ++ rest) = true →
        asksAt ((cs.map Symbol.char ++ rest).drop 2) = false := fun hs =>
      asksAt_drop_name (w := "in".toList) h.text (by decide) (fun hc => operator (by simp [hc])) stop
        (Bool.and_eq_true_iff.mp hs).1
    have instanceofWord : Semicolon.startsWithWord "instanceof" (cs.map .char ++ rest) = true →
        asksAt ((cs.map Symbol.char ++ rest).drop 10) = false := fun hs =>
      asksAt_drop_name (w := "instanceof".toList) h.text (by decide) (fun hc => operator (by simp [hc])) stop
        (Bool.and_eq_true_iff.mp hs).1
    refine ⟨⟨'i', more.map .char ++ rest, by simp [e], by decide, by decide, by simp⟩, ?_, asks, ?_⟩
    · simp [e, startsWith]
    · have length : Semicolon.leadLength (cs.map .char ++ rest) =
          if Semicolon.startsWithWord "instanceof" (cs.map .char ++ rest) then 10
          else if Semicolon.startsWithWord "in" (cs.map .char ++ rest) then 2 else 0 := by
        rw [e]
        rfl
      rw [length]
      split
      · exact instanceofWord ‹_›
      · split
        · exact inWord ‹_›
        · exact asks
  · rw [e]
    refine Calm.of_char other.1 ?_ _
    have := other.2
    simp only [signs, List.mem_cons, List.not_mem_nil, or_false, not_or] at this
    simp [restless, this, letter]

theorem Calm.of_point {c : Char} (h : c ≠ '?') (rest : List Symbol) :
    Calm (.char '.' :: .char c :: rest) :=
  ⟨⟨_, _, rfl, by decide, by decide, by simp⟩, ⟨rfl, rfl⟩, rfl, asksAt_char h rest⟩

theorem Calm.of_slash {c : Char} (h : c ∉ ['/', '*', '?']) (rest : List Symbol) :
    Calm (.char '/' :: .char c :: rest) := by
  simp only [List.mem_cons, List.not_mem_nil, or_false, not_or] at h
  exact ⟨⟨_, _, rfl, by decide, by decide, by simp [h]⟩, ⟨rfl, rfl⟩, rfl, asksAt_char h.2.2 rest⟩

end IndexedLoop
