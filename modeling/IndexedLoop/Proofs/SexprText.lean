import IndexedLoop.Sexpr
import Mathlib

/-!
# The text of an s-expression determines it

Two s-expressions with the same text are the same, if their names and numbers are written as such
(`Sexpr.WellFormed`, `Sexpr.text_injective`). The first character tells lists, texts, names and numbers apart
(`Sexpr.leadOf_text`), and no atom can be longer or shorter than it is: a name and a number go on to the next
blank or bracket, and a quoted text to the next quote that stands alone (`Sexpr.quoted_append_inj`).
-/

namespace IndexedLoop

/-- If characters of a class are followed by none of the class, it is clear where they end. -/
theorem append_inj_of_class {p : Char → Bool} {xs ys r r' : List Char} (hx : ∀ c ∈ xs, p c = true)
    (hy : ∀ c ∈ ys, p c = true) (hr : ∀ c ∈ r.head?, p c = false) (hr' : ∀ c ∈ r'.head?, p c = false)
    (h : xs ++ r = ys ++ r') : xs = ys ∧ r = r' := by
  have taken {zs r : List Char} (hz : ∀ c ∈ zs, p c = true) (hr : ∀ c ∈ r.head?, p c = false) :
      (zs ++ r).takeWhile p = zs := by
    rw [List.takeWhile_append_of_pos hz]
    cases r with
    | nil => simp
    | cons c r => simp [hr c rfl]
  have same : xs = ys := by rw [← taken hx hr, h, taken hy hr']
  subst same
  exact ⟨rfl, List.append_cancel_left h⟩

namespace Sexpr

/-! ## Quoted texts -/

/-- The character that a quoted text starts with, and what follows it. -/
def unquote? : List Char → Option (Char × List Char)
  | '\\' :: 'x' :: a :: b :: ';' :: rest => some (Char.ofNat (16 * hexValue a + hexValue b), rest)
  | '\\' :: 'n' :: rest => some ('\n', rest)
  | '\\' :: 'r' :: rest => some ('\r', rest)
  | '\\' :: 't' :: rest => some ('\t', rest)
  | '\\' :: 'a' :: rest => some ('\x07', rest)
  | '\\' :: 'b' :: rest => some ('\x08', rest)
  | '\\' :: c :: rest => some (c, rest)
  | '"' :: _ => none
  | c :: rest => some (c, rest)
  | [] => none
where
  /-- The value of a digit of base sixteen. -/
  hexValue (c : Char) : Nat := if c.toNat < 58 then c.toNat - 48 else c.toNat - 55

theorem hexValue_hexDigit {n : Nat} (h : n < 16) : unquote?.hexValue (hexDigit n) = n := by
  revert n
  decide

theorem unquote?_plain {c : Char} (backslash : c ≠ '\\') (quote : c ≠ '"') (rest : List Char) :
    unquote? (c :: rest) = some (c, rest) := by
  unfold unquote?
  split
  case h_9 =>
    rename_i h
    cases h
    rfl
  all_goals
    rename_i h
    simp_all

theorem unquote?_quotedChar (c : Char) (rest : List Char) :
    unquote? ((quotedChar c).toList ++ rest) = some (c, rest) := by
  unfold quotedChar
  split
  case h_8 quote backslash _ _ _ _ _ =>
    dsimp only
    split
    · have value : 16 * unquote?.hexValue (hexDigit (c.toNat / 16)) +
          unquote?.hexValue (hexDigit (c.toNat % 16)) = c.toNat := by
        rw [hexValue_hexDigit (by omega), hexValue_hexDigit (by omega)]
        omega
      simp [unquote?, value]
    · simpa using unquote?_plain backslash quote rest
  all_goals rfl

/-- What stands between the quotes. -/
def quoted (cs : List Char) : List Char := cs.flatMap fun c => (quotedChar c).toList

theorem toList_quotedText (s : String) : (quotedText s).toList = '"' :: (quoted s.toList ++ ['"']) := by
  simp [quotedText, quoted, String.toList_join, List.flatMap, Function.comp_def]

/-- A quoted text ends at the first quote that stands alone. -/
theorem quoted_append_inj {cs ds r r' : List Char} (h : quoted cs ++ '"' :: r = quoted ds ++ '"' :: r') :
    cs = ds ∧ r = r' := by
  have unquote (c : Char) (cs r : List Char) :
      unquote? (quoted (c :: cs) ++ '"' :: r) = some (c, quoted cs ++ '"' :: r) := by
    rw [quoted, List.flatMap_cons, List.append_assoc, unquote?_quotedChar]
    rfl
  have closes (r : List Char) : unquote? (quoted [] ++ '"' :: r) = none := rfl
  induction cs generalizing ds with
  | nil =>
    cases ds with
    | nil => exact ⟨rfl, (List.cons.inj h).2⟩
    | cons d ds =>
      have := congrArg unquote? h
      rw [closes, unquote] at this
      cases this
  | cons c cs ih =>
    have first := congrArg unquote? h
    rw [unquote] at first
    cases ds with
    | nil =>
      rw [closes] at first
      cases first
    | cons d ds =>
      rw [unquote] at first
      obtain ⟨rfl, rest⟩ := Prod.mk.inj (Option.some.inj first)
      obtain ⟨rfl, rfl⟩ := ih rest
      exact ⟨rfl, rfl⟩

/-! ## Rows of numbers -/

theorem isDigit_of_mem_toString {n : Nat} {c : Char} (h : c ∈ (toString n).toList) : c.isDigit = true := by
  rw [Nat.toString_eq_repr, Nat.toList_repr] at h
  exact Nat.isDigit_of_mem_toDigits (by decide) (Nat.le_refl 10) h

/-- The text between the brackets of a row. -/
def rowText (items : List Nat) : List Char := [' '].intercalate (items.map fun n => (toString n).toList)

theorem toList_vector (items : List Nat) :
    (vector items).text.toList = '#' :: '(' :: (rowText items ++ [')']) := by
  simp [text, rowText, String.toList_intercalate, Function.comp_def]

theorem mem_rowText {items : List Nat} {c : Char} (h : c ∈ rowText items) :
    (c.isDigit || c == ' ') = true := by
  induction items with
  | nil => cases h
  | cons n rest ih =>
    cases rest with
    | nil => simp [isDigit_of_mem_toString (by simpa [rowText] using h)]
    | cons m rest =>
      simp only [rowText, List.map_cons, List.intercalate_cons_cons, List.mem_append,
        List.mem_singleton] at h
      rcases h with (digit | rfl) | later
      · simp [isDigit_of_mem_toString digit]
      · rfl
      · exact ih later

theorem rowText_injective : Function.Injective rowText := by
  intro items items' h
  have blank (items : List Nat) : ∀ l ∈ items.map fun n => (toString n).toList, ' ' ∉ l := by
    simp only [List.mem_map, forall_exists_index, and_imp]
    rintro _ n - rfl mem
    exact absurd (isDigit_of_mem_toString mem) (by decide)
  have split {items : List Nat} (some : items ≠ []) :
      (rowText items).splitOn ' ' = items.map fun n => (toString n).toList :=
    List.splitOn_intercalate ' ' (blank items) (by simpa using some)
  have empty {items : List Nat} (h : rowText items = []) : items = [] := by
    cases items with
    | nil => rfl
    | cons n rest => cases rest <;> simp [rowText, List.intercalate_cons_cons] at h
  by_cases some : items = []
  · subst some
    exact (empty h.symm).symm
  · have some' : items' ≠ [] := by
      rintro rfl
      exact some (empty h)
    have texts := split some
    rw [h, split some'] at texts
    refine (List.map_injective_iff.mpr ?_ texts).symm
    intro m n e
    exact Nat.repr_injective (String.toList_injective e)

/-! ## The first character -/

/-- The characters of a name. -/
def nameChar (c : Char) : Bool := c.isAlpha || c == '_'

/-- The characters that a number starts with. -/
def numberStart (c : Char) : Bool := c.isDigit || c == '-'

/-- The characters of a number. -/
def numberChar (c : Char) : Bool := numberStart c || c == '.' || c == 'e'

/-- The text is a name: one or more letters and underscores. -/
def isName (s : String) : Bool := !s.toList.isEmpty && s.toList.all nameChar

theorem isName_iff {s : String} :
    isName s = true ↔ s.toList ≠ [] ∧ ∀ c ∈ s.toList, nameChar c = true := by
  simp [isName]

/-- Names and numbers are written as such: a name is made of letters, and a number starts with none. -/
def WellFormed : Sexpr → Prop
  | .symbol name => isName name = true
  | .number s =>
    (∃ c ∈ s.toList.head?, numberStart c = true) ∧ ∀ c ∈ s.toList, numberChar c = true
  | .pair head tail => head.WellFormed ∧ tail.WellFormed
  | .nil | .string _ | .boolean _ | .vector _ => True

/-- What can start with a character. -/
inductive Lead where
  | list
  | quoted
  | sharp
  | name
  | number
deriving DecidableEq

/-- What an s-expression starts as. -/
def lead : Sexpr → Lead
  | .nil | .pair .. => .list
  | .string _ => .quoted
  | .boolean _ | .vector _ => .sharp
  | .symbol _ => .name
  | .number _ => .number

/-- What starts with the character. -/
def leadOf (c : Char) : Lead :=
  if c = '(' then .list
  else if c = '"' then .quoted
  else if c = '#' then .sharp
  else if nameChar c then .name
  else .number

/-- A character of a class is none outside of it. -/
theorem ne_of_class {p : Char → Bool} {c d : Char} (hc : p c = true) (hd : p d = false) : c ≠ d := by
  rintro rfl
  exact absurd hc (by simp [hd])

theorem nameChar_of_numberStart {c : Char} (h : numberStart c = true) : nameChar c = false := by
  rcases Bool.or_eq_true_iff.mp h with digit | dash
  · have letter : c.isAlpha = false := by
      simp only [Char.isDigit, Char.isAlpha, Char.isUpper, Char.isLower] at *
      grind
    have other : c ≠ '_' := ne_of_class digit rfl
    simp [nameChar, letter, other]
  · rw [eq_of_beq dash]
    rfl

/-- The first character tells what an s-expression starts as, and is neither a point nor a closing bracket. -/
theorem leadOf_text {x : Sexpr} (h : x.WellFormed) :
    ∃ c rest, x.text.toList = c :: rest ∧ leadOf c = x.lead ∧ c ≠ '.' ∧ c ≠ ')' := by
  cases x with
  | nil => exact ⟨'(', _, rfl, rfl, by decide, by decide⟩
  | pair head tail =>
    exact ⟨'(', head.text.toList ++ (tail.tailText.toList ++ [')']), by simp [text], rfl, by decide, by decide⟩
  | string s => exact ⟨'"', _, toList_quotedText s, rfl, by decide, by decide⟩
  | boolean b => cases b <;> exact ⟨'#', _, rfl, rfl, by decide, by decide⟩
  | vector items => exact ⟨'#', _, toList_vector items, rfl, by decide, by decide⟩
  | symbol name =>
    obtain ⟨some, letters⟩ := isName_iff.mp h
    obtain ⟨c, rest, e⟩ := List.exists_cons_of_ne_nil some
    have letter : nameChar c = true := letters c (by simp [e])
    refine ⟨c, rest, e, ?_, ne_of_class letter rfl, ne_of_class letter rfl⟩
    rw [leadOf, if_neg (ne_of_class letter rfl), if_neg (ne_of_class letter rfl),
      if_neg (ne_of_class letter rfl), if_pos letter]
    rfl
  | number s =>
    obtain ⟨⟨c, first, start⟩, -⟩ := h
    obtain ⟨rest, e⟩ := List.head?_eq_some_iff.mp first
    refine ⟨c, rest, e, ?_, ne_of_class start rfl, ne_of_class start rfl⟩
    rw [leadOf, if_neg (ne_of_class start rfl), if_neg (ne_of_class start rfl),
      if_neg (ne_of_class start rfl), nameChar_of_numberStart start]
    rfl

theorem lead_eq {x y : Sexpr} (hx : x.WellFormed) (hy : y.WellFormed) {r r' : List Char}
    (h : x.text.toList ++ r = y.text.toList ++ r') : x.lead = y.lead := by
  obtain ⟨c, rest, e, lead, -⟩ := leadOf_text hx
  obtain ⟨c', rest', e', lead', -⟩ := leadOf_text hy
  rw [e, e', List.cons_append, List.cons_append] at h
  rw [← lead, ← lead', (List.cons.inj h).1]

/-! ## Whole texts -/

/-- What can follow an s-expression: the next one behind a blank, a closing bracket, or nothing. -/
def Ends (r : List Char) : Prop := ∀ c ∈ r.head?, c = ' ' ∨ c = ')'

theorem Ends.not_class {p : Char → Bool} (blank : p ' ' = false) (bracket : p ')' = false) {r : List Char}
    (h : Ends r) : ∀ c ∈ r.head?, p c = false := by
  intro c hc
  rcases h c hc with rfl | rfl
  · exact blank
  · exact bracket

/-- The s-expression shows itself at the end of a chain behind a point. -/
def isAtom : Sexpr → Bool
  | .nil | .pair .. => false
  | _ => true

theorem toList_tailText {x : Sexpr} (h : x.isAtom = true) :
    x.tailText.toList = ' ' :: '.' :: ' ' :: x.text.toList := by
  cases x with
  | nil => cases h
  | pair head tail => cases h
  | boolean b => cases b <;> rfl
  | _ => simp [tailText, text]

theorem ends_tailText (x : Sexpr) (r : List Char) : Ends (x.tailText.toList ++ ')' :: r) := by
  cases atom : x.isAtom with
  | true =>
    rw [toList_tailText atom]
    exact fun c hc => .inl (Option.some.inj hc).symm
  | false =>
    cases x with
    | nil => exact fun c hc => .inr (Option.some.inj hc).symm
    | pair head tail =>
      rw [show (pair head tail).tailText = " " ++ head.text ++ tail.tailText by rw [tailText]]
      simp [Ends]
    | _ => cases atom

/-- It is clear where the text ends, and what it is the text of, alone and behind the first item of a chain. -/
structure Determined (x : Sexpr) : Prop where
  text {y : Sexpr} {r r' : List Char} (wellFormed : y.WellFormed) (ends : Ends r) (ends' : Ends r')
    (h : x.text.toList ++ r = y.text.toList ++ r') : x = y ∧ r = r'
  tail {y : Sexpr} {r r' : List Char} (wellFormed : y.WellFormed)
    (h : x.tailText.toList ++ ')' :: r = y.tailText.toList ++ ')' :: r') : x = y ∧ r = r'

theorem determined_of_atom {x : Sexpr} (atom : x.isAtom = true)
    (text : ∀ {y : Sexpr} {r r' : List Char}, y.WellFormed → Ends r → Ends r' →
      x.text.toList ++ r = y.text.toList ++ r' → x = y ∧ r = r') : Determined x := by
  refine ⟨text, ?_⟩
  intro y r r' wellFormed h
  rw [toList_tailText atom] at h
  cases atom' : y.isAtom with
  | true =>
    rw [toList_tailText atom'] at h
    simp only [List.cons_append, List.cons.injEq, true_and] at h
    obtain ⟨rfl, rest⟩ := text wellFormed (by simp [Ends]) (by simp [Ends]) h
    exact ⟨rfl, (List.cons.inj rest).2⟩
  | false =>
    cases y with
    | nil => simp [tailText] at h
    | pair head tail =>
      obtain ⟨c, rest, e, -, point, -⟩ := leadOf_text wellFormed.1
      simp only [tailText, String.toList_append, e] at h
      exact absurd (by simpa using h : '.' = c ∧ _).1.symm point
    | _ => cases atom'

theorem determined_symbol {name : String} (h : (symbol name).WellFormed) : Determined (symbol name) := by
  refine determined_of_atom rfl fun {y r r'} wellFormed ends ends' e => ?_
  have lead := lead_eq h wellFormed e
  cases y with
  | symbol name' =>
    obtain ⟨names, rest⟩ := append_inj_of_class (isName_iff.mp h).2 (isName_iff.mp wellFormed).2
      (ends.not_class rfl rfl) (ends'.not_class rfl rfl) e
    exact ⟨congrArg symbol (String.toList_injective names), rest⟩
  | _ => cases lead

theorem determined_number {s : String} (h : (number s).WellFormed) : Determined (number s) := by
  refine determined_of_atom rfl fun {y r r'} wellFormed ends ends' e => ?_
  have lead := lead_eq h wellFormed e
  cases y with
  | number s' =>
    obtain ⟨texts, rest⟩ := append_inj_of_class h.2 wellFormed.2 (ends.not_class rfl rfl)
      (ends'.not_class rfl rfl) e
    exact ⟨congrArg number (String.toList_injective texts), rest⟩
  | _ => cases lead

theorem determined_string (s : String) : Determined (string s) := by
  refine determined_of_atom rfl fun {y r r'} wellFormed ends ends' e => ?_
  have lead := lead_eq (x := string s) trivial wellFormed e
  cases y with
  | string s' =>
    simp only [text, toList_quotedText, List.cons_append, List.append_assoc, List.nil_append, List.cons.injEq,
      true_and] at e
    obtain ⟨texts, rest⟩ := quoted_append_inj e
    exact ⟨congrArg string (String.toList_injective texts), rest⟩
  | _ => cases lead

theorem determined_boolean (b : Bool) : Determined (boolean b) := by
  refine determined_of_atom rfl fun {y r r'} wellFormed ends ends' e => ?_
  have lead := lead_eq (x := boolean b) trivial wellFormed e
  cases y with
  | boolean b' => cases b <;> cases b' <;> simp_all [text]
  | vector items =>
    rw [toList_vector] at e
    cases b <;> simp [text] at e
  | _ => cases lead

theorem determined_vector (items : List Nat) : Determined (vector items) := by
  refine determined_of_atom rfl fun {y r r'} wellFormed ends ends' e => ?_
  have lead := lead_eq (x := vector items) trivial wellFormed e
  rw [toList_vector] at e
  cases y with
  | boolean b => cases b <;> simp [text] at e
  | vector items' =>
    rw [toList_vector] at e
    simp only [List.cons_append, List.append_assoc, List.nil_append, List.cons.injEq, true_and] at e
    obtain ⟨rows, rest⟩ := append_inj_of_class (p := fun c => c.isDigit || c == ' ') (fun _ => mem_rowText)
      (fun _ => mem_rowText) (by simp) (by simp) e
    exact ⟨congrArg vector (rowText_injective rows), (List.cons.inj rest).2⟩
  | _ => cases lead

theorem determined_nil : Determined nil where
  text {y r r'} wellFormed ends ends' e := by
    have lead := lead_eq (x := nil) trivial wellFormed e
    cases y with
    | nil => simpa [text] using e
    | pair head tail =>
      obtain ⟨c, rest, first, -, -, bracket⟩ := leadOf_text wellFormed.1
      simp only [text, String.toList_append, first] at e
      exact absurd (by simpa using e : ')' = c ∧ _).1.symm bracket
    | _ => cases lead
  tail {y r r'} wellFormed e := by
    cases atom : y.isAtom with
    | true =>
      rw [toList_tailText atom] at e
      simp [tailText] at e
    | false =>
      cases y with
      | nil => simpa [tailText] using e
      | pair head tail => simp [tailText] at e
      | _ => cases atom

theorem determined_pair {head tail : Sexpr} (h : (pair head tail).WellFormed) (hh : Determined head)
    (ht : Determined tail) : Determined (pair head tail) where
  text {y r r'} wellFormed ends ends' e := by
    have lead := lead_eq h wellFormed e
    cases y with
    | nil =>
      obtain ⟨c, rest, first, -, -, bracket⟩ := leadOf_text h.1
      simp only [text, String.toList_append, first] at e
      exact absurd (by simpa using e : c = ')' ∧ _).1 bracket
    | pair head' tail' =>
      simp only [text, String.toList_append, List.append_assoc] at e
      obtain ⟨rfl, rest⟩ := hh.text wellFormed.1 (ends_tailText tail r) (ends_tailText tail' r')
        (List.cons.inj e).2
      obtain ⟨rfl, rfl⟩ := ht.tail wellFormed.2 rest
      exact ⟨rfl, rfl⟩
    | _ => cases lead
  tail {y r r'} wellFormed e := by
    simp only [tailText, String.toList_append, List.append_assoc] at e
    cases atom : y.isAtom with
    | true =>
      obtain ⟨c, rest, first, -, point, -⟩ := leadOf_text h.1
      rw [toList_tailText atom, first] at e
      exact absurd (by simpa using e : c = '.' ∧ _).1 point
    | false =>
      cases y with
      | nil => simp [tailText] at e
      | pair head' tail' =>
        simp only [tailText, String.toList_append, List.append_assoc] at e
        obtain ⟨rfl, rest⟩ := hh.text wellFormed.1 (ends_tailText tail r) (ends_tailText tail' r')
          (List.cons.inj e).2
        obtain ⟨rfl, rfl⟩ := ht.tail wellFormed.2 rest
        exact ⟨rfl, rfl⟩
      | _ => cases atom

theorem determined {x : Sexpr} (h : x.WellFormed) : Determined x := by
  induction x with
  | nil => exact determined_nil
  | symbol name => exact determined_symbol h
  | string s => exact determined_string s
  | number s => exact determined_number h
  | boolean b => exact determined_boolean b
  | vector items => exact determined_vector items
  | pair head tail hh ht => exact determined_pair h (hh h.1) (ht h.2)

/-- S-expressions with the same text are the same. -/
theorem text_injective {x y : Sexpr} (hx : x.WellFormed) (hy : y.WellFormed) (h : x.text = y.text) : x = y := by
  have nothing : Ends [] := by simp [Ends]
  exact ((determined hx).text hy nothing nothing (by rw [h])).1

end Sexpr

end IndexedLoop
