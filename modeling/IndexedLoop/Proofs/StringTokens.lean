import IndexedLoop.Proofs.Bytes
import IndexedLoop.Proofs.NumberTokens
import IndexedLoop.Text.Quoted

/-!
# String tokens

A string token has its quote at both ends. Between them a quote is escaped, and no backslash is left without a
character that it escapes. But a string may go on behind the end of a line with a comment, and what the comment says
is up to its author: a quote in it ends no string (`Quoted.Inside`). Only the body of a single-quoted literal, which is
written anew for double quotes, has all of its double quotes escaped. So the tree keeps bodies of double-quoted
literals (`Quoted.content_isBody`), which are free of other double quotes up to comments.
-/

namespace IndexedLoop

open Lexical

namespace Quoted

/-! ## Bodies -/

/-- Every backslash has a character behind it, which it escapes. -/
def endsEscapes : List Char → Bool
  | [] => true
  | '\\' :: _ :: rest => endsEscapes rest
  | c :: rest => c != '\\' && endsEscapes rest

/-- Every double quote is escaped. -/
def escapesQuotes : List Char → Bool
  | [] => true
  | '\\' :: _ :: rest => escapesQuotes rest
  | c :: rest => c != '"' && escapesQuotes rest

/-- The characters that end a comment in a line. -/
def endsLine (c : Char) : Bool := isLineBreak c || c == '\r'

/-- A comment in front of some text: up to the first `*/`, or up to the end of the line. -/
inductive Comment : (comment rest : List Char) → Prop
  | block {text rest : List Char} (first : ¬ ['*', '/'] <:+: text) :
      Comment ('/' :: '*' :: (text ++ ['*', '/'])) rest
  | line {text rest : List Char} {c : Char} (inLine : ∀ d ∈ text, endsLine d = false) (ends : endsLine c = true) :
      Comment ('/' :: '/' :: text) (c :: rest)

/-- The text between two quotes: characters other than the quote and the backslash, escapes, and comments behind the
end of a line. -/
inductive Inside (quote : Char) : List Char → Prop
  | nil : Inside quote []
  | char {c : Char} {rest : List Char} (other : c ≠ quote) (plain : c ≠ '\\') (next : Inside quote rest) :
      Inside quote (c :: rest)
  | escape {c : Char} {rest : List Char} (next : Inside quote rest) : Inside quote ('\\' :: c :: rest)
  | comment {c : Char} {blanks comment rest : List Char} (line : c = '\n' ∨ c = '\r')
      (blank : ∀ b ∈ blanks, isBlank b = true) (isComment : Comment comment rest) (next : Inside quote rest) :
      Inside quote (c :: (blanks ++ comment ++ rest))

@[simp]
theorem endsEscapes_cons {c : Char} (plain : c ≠ '\\') (rest : List Char) :
    endsEscapes (c :: rest) = endsEscapes rest := by
  rw [endsEscapes] <;> simp [plain]

@[simp]
theorem escapesQuotes_cons {c : Char} (plain : c ≠ '\\') (rest : List Char) :
    escapesQuotes (c :: rest) = (c != '"' && escapesQuotes rest) := by
  rw [escapesQuotes]
  simp [plain]

/-- An escape at the end of a stretch takes up one character behind it. -/
theorem endsEscapes_append {c : Char} {rest : List Char} (here : endsEscapes (c :: rest) = true)
    (behind : endsEscapes rest = true) (xs : List Char) : endsEscapes (xs ++ c :: rest) = true := by
  fun_induction endsEscapes xs with
  | case1 => exact here
  | case2 x xs ih => exact ih
  | case3 x xs other ih =>
    by_cases plain : x = '\\'
    · cases xs with
      | nil =>
        rw [plain]
        exact behind
      | cons y xs => exact absurd rfl (other y xs plain)
    · rw [List.cons_append, endsEscapes_cons plain]
      exact ih

theorem endsEscapes_blanks {blanks : List Char} (blank : ∀ b ∈ blanks, isBlank b = true) (rest : List Char) :
    endsEscapes (blanks ++ rest) = endsEscapes rest := by
  induction blanks with
  | nil => rfl
  | cons b blanks ih =>
    rw [List.forall_mem_cons] at blank
    have plain : b ≠ '\\' := by
      rintro rfl
      exact absurd blank.1 (by decide)
    rw [List.cons_append, endsEscapes_cons plain, ih blank.2]

/-- Behind a comment in front of a text the escapes end, if they end in the text, and also in the text behind its
first character. -/
theorem Comment.endsEscapes {comment rest : List Char} (h : Comment comment rest)
    (here : Quoted.endsEscapes rest = true) (behind : ∀ c more, rest = c :: more → endsLine c = true →
      Quoted.endsEscapes more = true) : Quoted.endsEscapes (comment ++ rest) = true := by
  cases h with
  | @block text =>
    have last : Quoted.endsEscapes ('*' :: '/' :: rest) = true := by simpa using here
    simpa using endsEscapes_append last (by simpa using here) text
  | @line text more c inLine ends =>
    simpa using endsEscapes_append here (behind c more rfl ends) text

/-- Between quotes every backslash escapes a character. A backslash at the end of a comment escapes what ends the
line, so that behind the end of a line the escapes end as well. -/
theorem Inside.endsEscapes {quote : Char} {cs : List Char} (h : Inside quote cs) :
    Quoted.endsEscapes cs = true ∧
      ∀ c more, cs = c :: more → endsLine c = true → Quoted.endsEscapes more = true := by
  induction h with
  | nil => exact ⟨rfl, nofun⟩
  | char other plain next ih =>
    refine ⟨by rw [endsEscapes_cons plain]; exact ih.1, ?_⟩
    rintro c more ⟨⟩ -
    exact ih.1
  | escape next ih =>
    refine ⟨ih.1, ?_⟩
    rintro c more ⟨⟩ ends
    exact absurd ends (by decide)
  | @comment c blanks comment rest line blank isComment next ih =>
    have plain : c ≠ '\\' := by
      rcases line with rfl | rfl <;> decide
    have inner : Quoted.endsEscapes (blanks ++ comment ++ rest) = true := by
      rw [List.append_assoc, endsEscapes_blanks blank]
      exact isComment.endsEscapes ih.1 ih.2
    refine ⟨by rw [endsEscapes_cons plain]; exact inner, ?_⟩
    rintro c more ⟨⟩ -
    exact inner

/-- The text may stand between double quotes, and every backslash in it escapes a character. -/
structure IsBody (raw : String) : Prop where
  inside : Inside '"' raw.toList
  escapes : endsEscapes raw.toList = true

/-- The character is no quote and no backslash. -/
def isSolid (c : Char) : Bool := c != '"' && c != '\'' && c != '\\'

theorem isSolid_of {p : Char → Bool} (others : ∀ d ∈ ['"', '\'', '\\'], p d = false) {c : Char} (h : p c = true) :
    isSolid c = true := by
  have other (d : Char) (mem : d ∈ ['"', '\'', '\\']) : c ≠ d := by
    rintro rfl
    exact Bool.false_ne_true ((others c mem).symm.trans h)
  simp [isSolid, other]

theorem Inside.append_solid {quote : Char} (isQuote : quote = '"' ∨ quote = '\'') {cs xs : List Char}
    (h : Inside quote cs) (solid : ∀ x ∈ xs, isSolid x = true) : Inside quote (xs ++ cs) := by
  induction xs with
  | nil => exact h
  | cons x xs ih =>
    rw [List.forall_mem_cons] at solid
    obtain ⟨⟨double, single⟩, plain⟩ : (x ≠ '"' ∧ x ≠ '\'') ∧ x ≠ '\\' := by simpa [isSolid] using solid.1
    refine .char ?_ plain (ih solid.2)
    rcases isQuote with rfl | rfl
    · exact double
    · exact single

/-- No quote ends a line. -/
theorem Comment.before {quote : Char} (isQuote : quote = '"' ∨ quote = '\'') {comment rest : List Char}
    (h : Comment comment (rest ++ [quote])) : Comment comment rest := by
  generalize e : rest ++ [quote] = more at h
  cases h with
  | block first => exact .block first
  | @line text more c inLine ends =>
    cases rest with
    | nil =>
      obtain ⟨rfl, -⟩ := List.cons.inj e
      rcases isQuote with rfl | rfl <;> exact absurd ends (by decide)
    | cons d rest =>
      obtain ⟨rfl, -⟩ := List.cons.inj e
      exact .line inLine ends

/-- A text whose quotes are escaped may stand between quotes. -/
theorem inside_of_escaped {cs : List Char} (ends : endsEscapes cs = true) (quotes : escapesQuotes cs = true) :
    Inside '"' cs := by
  fun_induction endsEscapes cs with
  | case1 => exact .nil
  | case2 c rest ih => exact .escape (ih ends quotes)
  | case3 c rest other ih =>
    obtain ⟨plain, ends⟩ : c ≠ '\\' ∧ endsEscapes rest = true := by simpa using ends
    obtain ⟨quote, quotes⟩ : c ≠ '"' ∧ escapesQuotes rest = true := by simpa [plain] using quotes
    exact .char quote plain (ih ends quotes)

/-- The body of a single-quoted literal becomes a text whose quotes are escaped. -/
theorem requote_escaped {cs : List Char} (h : endsEscapes cs = true) :
    endsEscapes (requote cs) = true ∧ escapesQuotes (requote cs) = true := by
  fun_induction requote cs with
  | case1 => exact ⟨rfl, rfl⟩
  | case2 rest ih => simpa using ih h
  | case3 c rest _ ih => exact ih h
  | case4 rest ih => exact ih (by simpa using h)
  | case5 c rest _ escape quote ih =>
    have plain : c ≠ '\\' := by
      rintro rfl
      cases rest with
      | nil => cases h
      | cons d rest => exact escape d rest rfl rfl
    have quote : c ≠ '"' := quote
    simpa [plain, quote] using ih (by simpa [plain] using h)

theorem inside_quotes {quote : Char} (narrow : quote.utf8Size = 1) (body : List Char) :
    inside (quote :: (body ++ [quote])) = body := by
  simp [inside, narrow]

end Quoted

/-! ## Scans -/

namespace Lexical

open Quoted

variable {quote : Char} {s : List Symbol} {k m n : Nat} {cs : List Char}

@[simp]
theorem takes_zero_iff : Takes s 0 cs ↔ cs = [] := by
  simp [Takes, eq_comm]

@[simp]
theorem takes_succ_iff {x : Symbol} :
    Takes (x :: s) (n + 1) cs ↔ ∃ c ds, x = .char c ∧ cs = c :: ds ∧ Takes s n ds := by
  cases cs with
  | nil => simp [Takes]
  | cons c ds => simp [Takes]

theorem Takes.split (h : Takes s (m + n) cs) : ∃ ds es, cs = ds ++ es ∧ Takes s m ds ∧ Takes (s.drop m) n es := by
  rw [Takes, List.take_add] at h
  obtain ⟨ds, es, rfl, first, second⟩ := List.map_eq_append_iff.mp h.symm
  exact ⟨ds, es, rfl, first.symm, second.symm⟩

theorem Takes.head {c : Char} (h : Takes s n (c :: cs)) : ∃ rest, s = .char c :: rest := by
  refine ⟨cs.map .char ++ s.drop n, ?_⟩
  rw [← List.cons_append, ← List.map_cons, ← h, List.take_append_drop]

theorem Takes.satisfies {p : Char → Bool} (h : Takes s n cs) (all : ∀ x ∈ s.take n, x.satisfies p = true) :
    ∀ c ∈ cs, p c = true := by
  intro c mem
  rw [h] at all
  exact all _ (List.mem_map_of_mem mem)

/-- A run ends in front of a symbol that is not of its kind. -/
theorem runLength_stops (p : Symbol → Bool) (s : List Symbol) : ∀ x ∈ (s.drop (runLength p s)).head?, p x = false := by
  induction s with
  | nil => simp
  | cons y s ih =>
    rw [runLength]
    split
    · rw [Nat.add_comm, List.drop_succ_cons]
      exact ih
    · next other => simpa using other

/-- A block comment goes up to the first `*/`. -/
theorem takes_blockCommentEnd (h : blockCommentEnd? s = some n) (chars : Takes s n cs) :
    ∃ text, cs = text ++ ['*', '/'] ∧ ¬ ['*', '/'] <:+: text := by
  fun_induction blockCommentEnd? s generalizing n cs with
  | case1 => cases h
  | case2 rest =>
    cases h
    simp only [takes_succ_iff, takes_zero_iff] at chars
    obtain ⟨_, _, ⟨⟩, rfl, _, _, ⟨⟩, rfl, rfl⟩ := chars
    exact ⟨[], rfl, by decide⟩
  | case3 x rest other ih =>
    obtain ⟨k, found, rfl⟩ := Option.map_eq_some_iff.mp h
    rw [Nat.add_comm, takes_succ_iff] at chars
    obtain ⟨c, ds, rfl, rfl, chars⟩ := chars
    obtain ⟨text, rfl, first⟩ := ih found chars
    refine ⟨c :: text, rfl, ?_⟩
    rw [List.infix_cons_iff]
    rintro (⟨more, starts⟩ | inner)
    · obtain ⟨rfl, rfl⟩ : '*' = c ∧ '/' :: more = text := List.cons.inj starts
      obtain ⟨tail, rfl⟩ := chars.head
      exact other tail rfl rfl
    · exact first inner

/-- The line ends behind a comment in it, or the text does. -/
theorem takes_restOfLine (chars : Takes s (restOfLine s) cs) :
    (∀ c ∈ cs, endsLine c = false) ∧ ∀ x ∈ (s.drop (restOfLine s)).head?, x.satisfies endsLine = true := by
  constructor
  · intro c mem
    have inLine := satisfies_of_mem_runLength (chars ▸ List.mem_map_of_mem mem)
    simpa [endsLine, Symbol.satisfies, Symbol.isChar] using inLine
  · intro x mem
    have ends := runLength_stops _ s x mem
    cases x with
    | char c => simpa [endsLine, Symbol.satisfies, Symbol.isChar, or_iff_not_imp_left] using ends
    | stray b => simp [Symbol.satisfies, Symbol.isChar] at ends

/-- What follows a comment inside of a string is part of the string. -/
theorem takes_comment (h : comment? s = some n) (chars : Takes s n cs) {rest : List Char} (some : rest ≠ [])
    (more : Takes (s.drop n) m rest) : Comment cs rest := by
  obtain ⟨c, rest, rfl⟩ := List.exists_cons_of_ne_nil some
  unfold comment? at h
  split at h
  · next s =>
    cases h
    rw [Nat.add_comm] at chars more
    simp only [takes_succ_iff, List.drop_succ_cons] at chars more
    obtain ⟨_, _, ⟨⟩, rfl, _, ds, ⟨⟩, rfl, chars⟩ := chars
    obtain ⟨inLine, ends⟩ := takes_restOfLine chars
    obtain ⟨tail, e⟩ := more.head
    exact .line inLine (ends (.char c) (by rw [e]; rfl))
  · next s =>
    obtain ⟨k, found, rfl⟩ := Option.map_eq_some_iff.mp h
    rw [Nat.add_comm] at chars
    simp only [takes_succ_iff] at chars
    obtain ⟨_, _, ⟨⟩, rfl, _, ds, ⟨⟩, rfl, chars⟩ := chars
    obtain ⟨text, rfl, first⟩ := takes_blockCommentEnd found chars
    exact .block first
  · cases h

theorem isSolid_of_isHexDigit {c : Char} (h : isHexDigit c = true) : isSolid c = true := isSolid_of (by decide) h

theorem takes_unicodeEscape (h : unicodeEscape? s = some n) (chars : Takes s n cs) : ∀ c ∈ cs, isSolid c = true := by
  unfold unicodeEscape? at h
  split at h
  · next four =>
    cases h
    exact fun c mem => isSolid_of_isHexDigit (chars.satisfies (List.all_eq_true.mp four.2) c mem)
  · split at h
    · next rest =>
      obtain ⟨k, found, rfl⟩ := Option.map_eq_some_iff.mp h
      simp only [bracedHex?, Option.ite_none_right_eq_some, Option.some.injEq] at found
      obtain ⟨⟨-, closes⟩, rfl⟩ := found
      obtain ⟨tail, e⟩ := (startsWith_iff _ _).mp closes
      rw [Nat.add_comm, takes_succ_iff] at chars
      obtain ⟨_, ds, ⟨⟩, rfl, chars⟩ := chars
      obtain ⟨es, fs, rfl, digits, last⟩ := chars.split
      rw [← e] at last
      simp only [List.map_cons, List.map_nil, List.cons_append, takes_succ_iff, takes_zero_iff] at last
      obtain ⟨_, _, ⟨⟩, rfl, rfl⟩ := last
      have hex := digits.satisfies fun x mem => satisfies_of_mem_runLength mem
      simp only [List.mem_cons, List.mem_append, List.not_mem_nil, or_false]
      rintro c (rfl | mem | rfl)
      · decide
      · exact isSolid_of_isHexDigit (hex c mem)
      · decide
    · cases h

/-- Behind its first character an escape has no quote and no backslash. -/
theorem takes_escape (h : escape? s = some n) (chars : Takes s n cs) :
    ∃ c ds, cs = c :: ds ∧ ∀ d ∈ ds, isSolid d = true := by
  unfold escape? at h
  split at h
  · cases h
  · next rest =>
    obtain ⟨⟨-, hex⟩, e⟩ := Option.ite_none_right_eq_some.mp h
    cases e
    obtain ⟨c, ds, -, rfl, digits⟩ := takes_succ_iff.mp chars
    exact ⟨c, ds, rfl, fun d mem => isSolid_of_isHexDigit (digits.satisfies (List.all_eq_true.mp hex) d mem)⟩
  · next rest =>
    obtain ⟨k, found, rfl⟩ := Option.map_eq_some_iff.mp h
    rw [Nat.add_comm] at chars
    obtain ⟨c, ds, -, rfl, code⟩ := takes_succ_iff.mp chars
    exact ⟨c, ds, rfl, takes_unicodeEscape found code⟩
  · next rest _ _ =>
    split at h
    · cases h
      rw [Nat.add_comm] at chars
      obtain ⟨c, ds, -, rfl, digits⟩ := takes_succ_iff.mp chars
      obtain ⟨xs, starts, length, octal⟩ := runLength_take (·.satisfies isOctalDigit) (rest.take 2)
      rw [← length, Takes, ← List.prefix_iff_eq_take.mp (starts.trans (List.take_prefix ..))] at digits
      refine ⟨c, ds, rfl, fun d mem => isSolid_of (p := isOctalDigit) (by decide) (octal (.char d) ?_)⟩
      rw [digits]
      exact List.mem_map_of_mem mem
    · split at h
      · next ends =>
        cases h
        obtain ⟨c, ds, -, rfl, last⟩ := takes_succ_iff.mp chars
        have ends := (Bool.and_eq_true_iff.mp ends).2
        refine ⟨c, ds, rfl, fun d mem => isSolid_of (p := isLineBreak) (by decide) (last.satisfies ?_ d mem)⟩
        cases rest with
        | nil => simp
        | cons x rest => simpa using ends
      · cases h
        obtain ⟨c, ds, -, rfl, nothing⟩ := takes_succ_iff.mp chars
        rw [takes_zero_iff.mp nothing]
        exact ⟨c, [], rfl, by simp⟩
  · cases h
    obtain ⟨c, ds, ⟨⟩, -⟩ := takes_succ_iff.mp chars

theorem drop_of_stringFrom (h : stringFrom quote k s = some n) :
    ∃ m, n = k + m ∧ stringFrom quote 0 (s.drop k) = some m := by
  induction k generalizing s n with
  | zero => exact ⟨n, by omega, h⟩
  | succ k ih =>
    cases s with
    | nil => cases h
    | cons x rest =>
      rw [stringFrom] at h
      obtain ⟨l, found, rfl⟩ := Option.map_eq_some_iff.mp h
      obtain ⟨m, rfl, behind⟩ := ih found
      exact ⟨m, by omega, behind⟩

/-- A string ends here, or goes on behind its next piece. -/
theorem stringFrom_cases (h : stringFrom quote 0 s = some n) :
    stringEnd? quote s = some n ∨ stringEnd? quote s = none ∧
      ∃ k m, stringPiece? s = some (k + 1) ∧ n = k + 1 + m ∧ stringFrom quote 0 (s.drop (k + 1)) = some m := by
  cases s with
  | nil => cases h
  | cons x rest =>
    rw [stringFrom] at h
    split at h
    · next ends => exact .inl (ends.trans h)
    · next k ends piece =>
      obtain ⟨l, found, rfl⟩ := Option.map_eq_some_iff.mp h
      obtain ⟨m, rfl, behind⟩ := drop_of_stringFrom found
      exact .inr ⟨ends, k, m, piece, by omega, behind⟩
    · cases h

theorem takes_stringEnd (h : stringEnd? quote s = some n) (chars : Takes s n cs) :
    ∃ blanks, cs = blanks ++ [quote] ∧ ∀ b ∈ blanks, isBlank b = true := by
  rw [stringEnd?] at h
  generalize lines_eq : (if startsWith ['\n'] s || startsWith ['\r'] s then Lexical.blanks s else 0) = lines at h
  obtain ⟨closes, e⟩ := Option.ite_none_right_eq_some.mp h
  cases e
  obtain ⟨tail, e⟩ := (startsWith_iff _ _).mp closes
  obtain ⟨bs, ds, rfl, front, last⟩ := chars.split
  rw [← e] at last
  simp only [List.map_cons, List.map_nil, List.cons_append, takes_succ_iff, takes_zero_iff] at last
  obtain ⟨_, _, ⟨⟩, rfl, rfl⟩ := last
  refine ⟨bs, rfl, front.satisfies fun x mem => ?_⟩
  rw [← lines_eq] at mem
  split at mem
  · exact satisfies_of_mem_runLength mem
  · cases mem

/-- A string goes on with its next piece. -/
theorem takes_stringPiece (isQuote : quote = '"' ∨ quote = '\'') (piece : stringPiece? s = some n)
    (goesOn : stringEnd? quote s = none) (chars : Takes s n cs) {body : List Char} (inside : Inside quote body)
    (more : Takes (s.drop n) m (body ++ [quote])) : Inside quote (cs ++ body) := by
  unfold stringPiece? at piece
  split at piece
  · cases piece
  · next rest =>
    obtain ⟨k, found, rfl⟩ := Option.map_eq_some_iff.mp piece
    rw [Nat.add_comm] at chars
    obtain ⟨_, es, ⟨⟩, rfl, code⟩ := takes_succ_iff.mp chars
    obtain ⟨c, ds, rfl, solid⟩ := takes_escape found code
    exact .escape (inside.append_solid isQuote solid)
  · next x rest other =>
    split at piece
    · next ends =>
      obtain ⟨k, found, rfl⟩ := Option.map_eq_some_iff.mp piece
      obtain ⟨bs, ds, rfl, front, behind⟩ := chars.split
      rw [← List.drop_drop] at more
      have comment := takes_comment found behind (by simp) more
      have blank := front.satisfies fun x mem => satisfies_of_mem_runLength mem
      obtain ⟨c, rfl, line⟩ : ∃ c, x = .char c ∧ (c = '\n' ∨ c = '\r') := by
        rcases ends with rfl | rfl
        · exact ⟨_, rfl, .inl rfl⟩
        · exact ⟨_, rfl, .inr rfl⟩
      have length : Lexical.blanks (.char c :: rest) = Lexical.blanks rest + 1 := by
        rw [Lexical.blanks, runLength, if_pos (by rcases line with rfl | rfl <;> decide), Nat.add_comm]
        rfl
      rw [length] at front
      obtain ⟨_, bs, ⟨⟩, rfl, -⟩ := takes_succ_iff.mp front
      exact .comment line (List.forall_mem_cons.mp blank).2 (comment.before isQuote) inside
    · cases piece
      obtain ⟨c, ds, rfl, rfl, nothing⟩ := takes_succ_iff.mp chars
      rw [takes_zero_iff.mp nothing]
      refine .char ?_ ?_ inside
      · rintro rfl
        have closes : stringEnd? c (.char c :: rest) = some 1 := by
          rcases isQuote with rfl | rfl <;> rfl
        rw [closes] at goesOn
        cases goesOn
      · rintro rfl
        exact other rfl

/-- A string has its quote at the end and in front of it what may stand between quotes. The induction is on the
length, from piece to piece. -/
theorem takes_stringFrom (isQuote : quote = '"' ∨ quote = '\'') (h : stringFrom quote 0 s = some n)
    (chars : Takes s n cs) : ∃ body, cs = body ++ [quote] ∧ Inside quote body := by
  induction n using Nat.strong_induction_on generalizing s cs with
  | _ n ih =>
    rcases stringFrom_cases h with ends | ⟨goesOn, k, m, piece, rfl, behind⟩
    · obtain ⟨blanks, rfl, blank⟩ := takes_stringEnd ends chars
      refine ⟨blanks, rfl, ?_⟩
      have inside := Inside.nil.append_solid isQuote fun b mem => isSolid_of (p := isBlank) (by decide) (blank b mem)
      rwa [List.append_nil] at inside
    · obtain ⟨ds, es, rfl, here, more⟩ := chars.split
      obtain ⟨body, rfl, inside⟩ := ih m (by omega) behind more
      exact ⟨ds ++ body, by rw [List.append_assoc], takes_stringPiece isQuote piece goesOn here inside more⟩

/-- A string token is a text between two quotes. -/
theorem IsString.inside {text : String} (h : IsString (Symbol.ofString text)) :
    ∃ quote body, (quote = '"' ∨ quote = '\'') ∧ text.toList = quote :: (body ++ [quote]) ∧ Inside quote body := by
  obtain ⟨s, n, found, e⟩ := h
  have chars : Takes s n text.toList := e.symm
  have quoted (quote : Char) (isQuote : quote = '"' ∨ quote = '\'') (rest : List Symbol)
      (isString : (stringFrom quote 0 rest).map (1 + ·) = some n) (chars : Takes (.char quote :: rest) n text.toList) :
      ∃ quote body, (quote = '"' ∨ quote = '\'') ∧ text.toList = quote :: (body ++ [quote]) ∧ Inside quote body := by
    obtain ⟨k, scanned, rfl⟩ := Option.map_eq_some_iff.mp isString
    rw [Nat.add_comm] at chars
    obtain ⟨_, ds, ⟨⟩, e, behind⟩ := takes_succ_iff.mp chars
    obtain ⟨body, rfl, inside⟩ := takes_stringFrom isQuote scanned behind
    exact ⟨quote, body, isQuote, e, inside⟩
  unfold string? at found
  split at found
  · exact quoted _ (.inl rfl) _ found chars
  · exact quoted _ (.inr rfl) _ found chars
  · cases found

end Lexical

namespace Quoted

/-- The content of a string token is the body of a double-quoted literal. -/
theorem content_isBody {text : String} (h : IsString (Symbol.ofString text)) : IsBody (content text) := by
  obtain ⟨quote, body, isQuote, e, inside⟩ := h.inside
  have narrow : quote.utf8Size = 1 := by rcases isQuote with rfl | rfl <;> rfl
  rw [content, e, List.head?_cons, inside_quotes narrow]
  split
  · next single =>
    obtain rfl : quote = '\'' := Option.some.inj single
    have ⟨ends, quotes⟩ := requote_escaped inside.endsEscapes.1
    constructor <;> rw [String.toList_ofList]
    · exact inside_of_escaped ends quotes
    · exact ends
  · next double =>
    obtain rfl : quote = '"' := isQuote.resolve_right fun single => double (congrArg some single)
    constructor <;> rw [String.toList_ofList]
    · exact inside
    · exact inside.endsEscapes.1

end Quoted

/-! ## Sources -/

/-- Symbols of a source that have a text are its characters. -/
theorem Symbol.eq_ofString_of_toText {bytes : List UInt8} {symbols : List Symbol} {text : String}
    (part : symbols <:+: Utf8.decode bytes) (h : toText symbols = .ok text) : symbols = ofString text := by
  obtain ⟨before, rest, e⟩ := part
  obtain ⟨more, behind⟩ := Utf8.decode_drop (e.symm.trans (List.append_assoc ..))
  rw [toText] at h
  split at h
  · cases h
  · next noFault =>
    have chars := Utf8.isChar_of_noFault behind noFault
    cases h
    exact (ofString_textOf chars).symm

/-- The body of a string of a source. -/
def Quoted.IsContent (src : List Symbol) (raw : String) : Prop :=
  ∃ symbols text, symbols <:+: src ∧ IsString symbols ∧ Symbol.toText symbols = .ok text ∧ raw = content text

theorem Quoted.IsContent.isBody {bytes : List UInt8} {raw : String} (h : IsContent (Utf8.decode bytes) raw) :
    IsBody raw := by
  obtain ⟨symbols, text, part, isString, toText, rfl⟩ := h
  rw [Symbol.eq_ofString_of_toText part toText] at isString
  exact content_isBody isString

end IndexedLoop
