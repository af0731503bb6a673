import IndexedLoop.Printer
import IndexedLoop.Proofs.StringTokens

/-!
# Strings with other quotes

The body of a string literal is a row of pieces (`Quoted.pieces?`): a character that stands for itself, or a backslash
with the character that it escapes. The body of a single-quoted literal is kept for double quotes, piece by piece
(`Quoted.pieces?_requote`): an escaped single quote needs no backslash any more, a double quote gets one, and nothing
else changes, so that both bodies denote the same characters. From then on the body stays as it is, since printing
puts it between double quotes.
-/

namespace IndexedLoop.Quoted

/-- A piece of the body of a string literal: a character, or a backslash with the character that it escapes. -/
inductive Piece where
  | plain (c : Char)
  | escape (c : Char)
deriving DecidableEq, Repr

/-- The pieces of a body. A backslash at its end would escape nothing. -/
def pieces? : List Char → Option (List Piece)
  | [] => some []
  | '\\' :: c :: rest => (pieces? rest).map (.escape c :: ·)
  | c :: rest => if c = '\\' then none else (pieces? rest).map (.plain c :: ·)

namespace Piece

/-- The piece may stand between two quotes of this kind: the quote, the backslash and what ends a line stand there only
behind a backslash. -/
def Fits (quote : Char) : Piece → Prop
  | .plain c => c ≠ quote ∧ c ≠ '\\' ∧ c ≠ '\n' ∧ c ≠ '\r'
  | .escape _ => True

instance (quote : Char) : DecidablePred (Fits quote)
  | .plain c => inferInstanceAs (Decidable (c ≠ quote ∧ c ≠ '\\' ∧ c ≠ '\n' ∧ c ≠ '\r'))
  | .escape _ => .isTrue trivial

/-- A piece of a single-quoted body between double quotes. -/
def requoted : Piece → Piece
  | .escape '\'' => .plain '\''
  | .plain '"' => .escape '"'
  | p => p

/-- What a piece stands for: a character, or an escape that is none of a quote. -/
def value : Piece → Char ⊕ Char
  | .plain c => .inl c
  | .escape c => if c = '\'' ∨ c = '"' then .inl c else .inr c

theorem requoted_escape {c : Char} (other : c ≠ '\'') : (escape c).requoted = escape c := by
  unfold requoted
  split
  · next e => exact absurd (escape.inj e) other
  · next e => cases e
  · rfl

theorem requoted_plain {c : Char} (other : c ≠ '"') : (plain c).requoted = plain c := by
  unfold requoted
  split
  · next e => cases e
  · next e => exact absurd (plain.inj e) other
  · rfl

theorem value_requoted (p : Piece) : p.requoted.value = p.value := by
  cases p with
  | plain c =>
    by_cases double : c = '"'
    · rw [double]
      rfl
    · rw [requoted_plain double]
  | escape c =>
    by_cases single : c = '\''
    · rw [single]
      rfl
    · rw [requoted_escape single]

theorem Fits.requoted {p : Piece} (h : p.Fits '\'') : p.requoted.Fits '"' := by
  cases p with
  | plain c =>
    by_cases double : c = '"'
    · rw [double]
      trivial
    · rw [requoted_plain double]
      exact ⟨double, h.2⟩
  | escape c =>
    by_cases single : c = '\''
    · rw [single]
      simp [Piece.requoted, Fits]
    · rw [requoted_escape single]
      trivial

end Piece

theorem pieces?_escape (c : Char) (rest : List Char) :
    pieces? ('\\' :: c :: rest) = (pieces? rest).map (.escape c :: ·) := by
  rw [pieces?]

theorem pieces?_plain {c : Char} (plain : c ≠ '\\') (rest : List Char) :
    pieces? (c :: rest) = (pieces? rest).map (.plain c :: ·) := by
  rw [pieces?, if_neg plain]
  intro _ _ e
  exact absurd e plain

/-- The pieces of a requoted body are the requoted pieces of the body. -/
theorem pieces?_requote {cs : List Char} {ps : List Piece} (h : pieces? cs = some ps) :
    pieces? (requote cs) = some (ps.map Piece.requoted) := by
  fun_induction requote cs generalizing ps with
  | case1 =>
    cases h
    rfl
  | case2 rest ih =>
    rw [pieces?_escape] at h
    obtain ⟨more, read, rfl⟩ := Option.map_eq_some_iff.mp h
    rw [pieces?_plain (by decide), ih read]
    rfl
  | case3 c rest single ih =>
    rw [pieces?_escape] at h
    obtain ⟨more, read, rfl⟩ := Option.map_eq_some_iff.mp h
    have single : c ≠ '\'' := single
    rw [pieces?_escape, ih read, List.map_cons, Piece.requoted_escape single]
    rfl
  | case4 rest ih =>
    rw [pieces?_plain (by decide)] at h
    obtain ⟨more, read, rfl⟩ := Option.map_eq_some_iff.mp h
    rw [pieces?_escape, ih read]
    rfl
  | case5 c rest _ escape double ih =>
    have plain : c ≠ '\\' := by
      rintro rfl
      cases rest with
      | nil => cases h
      | cons d rest => exact escape d rest rfl rfl
    have double : c ≠ '"' := double
    rw [pieces?_plain plain] at h
    obtain ⟨more, read, rfl⟩ := Option.map_eq_some_iff.mp h
    rw [pieces?_plain plain, ih read, List.map_cons, Piece.requoted_plain double]
    rfl

theorem content_single (body : String) :
    content ("'" ++ body ++ "'") = String.ofList (requote body.toList) := by
  have narrow : '\''.utf8Size = 1 := by decide
  simp [content, inside_quotes narrow]

theorem content_double (raw : String) : content ("\"" ++ raw ++ "\"") = raw := by
  have narrow : '"'.utf8Size = 1 := by decide
  simp [content, inside_quotes narrow]

/-- The content of a single-quoted literal may stand between double quotes and denotes the same string: its pieces are
those of the literal, with a plain single quote for each escaped one and an escaped double quote for each plain one.
The content of a double-quoted literal is what stands between the quotes, so that a string is read back as it was
printed. -/
theorem content_keeps_string {body : String} {ps : List Piece} (read : pieces? body.toList = some ps)
    (valid : ∀ p ∈ ps, p.Fits '\'') :
    (∃ qs, pieces? (content ("'" ++ body ++ "'")).toList = some qs ∧ qs = ps.map Piece.requoted ∧
      (∀ p ∈ qs, p.Fits '"') ∧ qs.map Piece.value = ps.map Piece.value) ∧
    ∀ raw, content ("\"" ++ raw ++ "\"") = raw ∧
      ∀ span, content (Literal.render ⟨span, .string raw⟩).text = raw := by
  refine ⟨⟨ps.map Piece.requoted, ?_, rfl, ?_, ?_⟩, fun raw => ⟨content_double raw, fun _ => content_double raw⟩⟩
  · rw [content_single, String.toList_ofList]
    exact pieces?_requote read
  · intro p mem
    obtain ⟨p, here, rfl⟩ := List.mem_map.mp mem
    exact (valid p here).requoted
  · rw [List.map_map]
    exact List.map_congr_left fun p _ => p.value_requoted

/-- A body in which backslashes stand in front of quotes of both kinds and in front of each other. -/
def exampleBody : String := "\"\\\\\\'é\\\"\\\\\"\\n"

theorem content_keeps_string_exampleBody :
    pieces? exampleBody.toList = some [.plain '"', .escape '\\', .escape '\'', .plain 'é', .escape '"', .escape '\\',
      .plain '"', .escape 'n'] ∧
    content ("'" ++ exampleBody ++ "'") = "\\\"\\\\'é\\\"\\\\\\\"\\n" ∧
    ∃ qs, pieces? (content ("'" ++ exampleBody ++ "'")).toList = some qs ∧ ∀ p ∈ qs, p.Fits '"' := by
  have read : pieces? exampleBody.toList = some [.plain '"', .escape '\\', .escape '\'', .plain 'é', .escape '"',
      .escape '\\', .plain '"', .escape 'n'] := by decide
  obtain ⟨qs, found, -, fits, -⟩ := (content_keeps_string read (by decide)).1
  exact ⟨read, by decide +kernel, qs, found, fits⟩

end IndexedLoop.Quoted
