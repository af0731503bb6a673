import IndexedLoop.Proofs.Extents.Token

/-!
# Blanks and comments

Between two tokens stand blanks and comments. What stands first tells what is skipped (`Lexical.rightUnique_skips`),
so a character that is part of neither is not passed over (`Lexical.LeadsTo.leadsTo_char`). The next token of a cursor
comes behind blanks and comments (`Cursor.leadsTo_lexemeIn`), unless the `?` of a conditional was looked for.
-/

namespace IndexedLoop

namespace Lexical

/-- The text starts with a sign that makes the rest of its line a comment. -/
def opensMarkup (s : List Symbol) : Bool := startsWith ['<', '!', '-', '-'] s || startsWith ['-', '-', '>'] s

/-- The text starts with a blank or a comment, and goes on with another text behind it. -/
inductive Skips : List Symbol → List Symbol → Prop
  | blank {x : Symbol} {s : List Symbol} (h : x.satisfies isBlank = true) : Skips (x :: s) s
  | comment {s : List Symbol} {n : Nat} (h : comment? s = some n) : Skips s (s.drop n)
  | markup {s : List Symbol} (h : opensMarkup s = true) :
      Skips s (s.drop (runLength (fun x => !x.satisfies isLineBreak) s))

/-- Nothing but blanks and comments stands in front of the second text. -/
abbrev LeadsTo : List Symbol → List Symbol → Prop := Relation.ReflTransGen Skips

variable {s t u : List Symbol} {n : Nat}

theorem head_of_comment (h : comment? s = some n) : s.head? = some (.char '/') := by
  unfold comment? at h
  split at h
  · rfl
  · rfl
  · cases h

theorem head_of_opensMarkup (h : opensMarkup s = true) : s.head? = some (.char '<') ∨ s.head? = some (.char '-') := by
  rw [opensMarkup, Bool.or_eq_true, startsWith_iff, startsWith_iff] at h
  rcases h with ⟨rest, rfl⟩ | ⟨rest, rfl⟩
  · exact .inl rfl
  · exact .inr rfl

theorem not_blank_of_comment {x : Symbol} (h : comment? (x :: s) = some n) : x.satisfies isBlank = false := by
  obtain rfl := Option.some.inj (head_of_comment h)
  decide

theorem not_blank_of_opensMarkup {x : Symbol} (h : opensMarkup (x :: s) = true) : x.satisfies isBlank = false := by
  rcases head_of_opensMarkup h with h | h
  all_goals
    obtain rfl := Option.some.inj h
    decide

theorem not_opensMarkup_of_comment (h : comment? s = some n) : opensMarkup s = false := by
  rw [Bool.eq_false_iff]
  intro opens
  rcases head_of_opensMarkup opens with h' | h'
  all_goals exact absurd ((head_of_comment h).symm.trans h') (by decide)

/-- The first symbol tells what is skipped. -/
theorem rightUnique_skips : Relator.RightUnique Skips := by
  intro s t u ht hu
  cases ht with
  | blank h =>
    cases hu with
    | blank => rfl
    | comment h' => exact absurd h (by simp [not_blank_of_comment h'])
    | markup h' => exact absurd h (by simp [not_blank_of_opensMarkup h'])
  | comment h =>
    cases hu with
    | blank h' => exact absurd h' (by simp [not_blank_of_comment h])
    | comment h' => rw [Option.some.inj (h.symm.trans h')]
    | markup h' => exact absurd h' (by simp [not_opensMarkup_of_comment h])
  | markup h =>
    cases hu with
    | blank h' => exact absurd h' (by simp [not_blank_of_opensMarkup h])
    | comment h' => exact absurd h (by simp [not_opensMarkup_of_comment h'])
    | markup => rfl

/-- A character that starts neither a blank nor a comment stops the skipping. -/
theorem not_skips {c : Char} (h : isBlank c = false) (other : c ∉ ['/', '<', '-']) : ¬Skips (.char c :: s) t := by
  simp only [List.mem_cons, List.not_mem_nil, or_false, not_or] at other
  intro skips
  cases skips with
  | blank h' => exact absurd h' (by simp [Symbol.satisfies, h])
  | comment h' => exact other.1 (Symbol.char.inj (Option.some.inj (head_of_comment h')))
  | markup h' =>
    rcases head_of_opensMarkup h' with h' | h'
    · exact other.2.1 (Symbol.char.inj (Option.some.inj h'))
    · exact other.2.2 (Symbol.char.inj (Option.some.inj h'))

/-- What stops the skipping is not passed over. -/
theorem LeadsTo.leadsTo_char {c : Char} (h : LeadsTo s (.char c :: u)) (blank : isBlank c = false)
    (other : c ∉ ['/', '<', '-']) (h' : LeadsTo s t) : LeadsTo t (.char c :: u) := by
  rcases Relation.ReflTransGen.total_of_right_unique rightUnique_skips h h' with more | more
  · rcases Relation.ReflTransGen.cases_head more with rfl | ⟨_, skips, -⟩
    · exact .refl
    · exact absurd skips (not_skips blank other)
  · exact more

/-- Blanks and comments lead to one character only that stops the skipping. -/
theorem LeadsTo.char_unique {c d : Char} (h : LeadsTo s (.char c :: t)) (h' : LeadsTo s (.char d :: u))
    (stops : ∀ x ∈ [c, d], isBlank x = false ∧ x ∉ ['/', '<', '-']) : c = d ∧ t = u := by
  have hc := stops c (by simp)
  have hd := stops d (by simp)
  rcases Relation.ReflTransGen.cases_head (h.leadsTo_char hc.1 hc.2 h') with same | ⟨_, skips, -⟩
  · simpa [eq_comm] using same
  · exact absurd skips (not_skips hd.1 hd.2)

theorem LeadsTo.length_le (h : LeadsTo s t) : t.length ≤ s.length := by
  induction h with
  | refl => exact le_rfl
  | tail _ skips ih =>
    refine le_trans ?_ ih
    cases skips <;> simp

theorem leadsTo_run {p : Symbol → Bool} (blanks : ∀ x, p x = true → x.satisfies isBlank = true) (s : List Symbol) :
    LeadsTo s (s.drop (runLength p s)) := by
  induction s with
  | nil => exact .refl
  | cons x s ih =>
    rw [runLength]
    split
    · next h =>
      rw [Nat.add_comm, List.drop_succ_cons]
      exact .head (.blank (blanks x h)) ih
    · exact .refl

theorem leadsTo_blanksAndComment (h : blanksAndComment? s = some n) : LeadsTo s (s.drop n) := by
  obtain ⟨m, comment, rfl⟩ := Option.map_eq_some_iff.mp h
  rw [← List.drop_drop]
  exact .tail (leadsTo_run (fun _ => id) s) (.comment comment)

theorem leadsTo_markupComment (h : markupComment? s = some n) : LeadsTo s (s.drop n) := by
  rw [markupComment?] at h
  split at h
  · next opens =>
    cases h
    rw [← List.drop_drop]
    refine .tail (leadsTo_run (fun x blank => ?_) s) (.markup opens)
    cases x with
    | char c =>
      simp only [Symbol.satisfies, Bool.or_eq_true] at blank
      rcases blank with h | h <;> simp [Symbol.satisfies, isBlank, h]
    | stray b => cases blank
  · cases h

end Lexical

/-! ## Tokens behind blanks and comments -/

/-- A punctuation token that is read is what the text starts with. -/
theorem Token.read_punct_eq {slot : Slot} {s : List Symbol} {mark : String} {n : Nat}
    (h : read slot s = (.punct mark, n)) : s = Symbol.ofString mark ++ s.drop n := by
  unfold read at h
  split at h
  · cases h
  · split at h <;> cases h
  · split at h
    · cases h
    · split at h
      · cases h
      · split at h
        · cases h
        · split at h
          · cases h
          · split at h
            · next found =>
              cases h
              rw [Lexical.punctuator?] at found
              have starts := List.find?_some found
              rw [← Lexical.take_eq_of_startsWith starts, List.take_append_drop]
            · cases h

namespace Cursor

open Lexical

/-- Where no question is asked, only blanks and comments stand in front of the next token. -/
theorem leadsTo_lexemeIn (fuel : List Symbol) {c : Cursor}
    (h : c.slot.joins = false ∨ (c.lexemeIn fuel).token ≠ .punct "?") :
    LeadsTo c.rest (c.lexemeIn fuel).start.rest := by
  induction fuel generalizing c with
  | nil => exact .refl
  | cons x fuel ih =>
    generalize found : c.lexemeIn (x :: fuel) = l at h ⊢
    rw [lexemeIn] at found
    split at found
    · cases found
      exact .refl
    · split at found
      · next asks =>
        cases found
        rcases h with joins | token
        · rw [joins] at asks
          cases asks
        · exact absurd rfl token
      · dsimp only at found
        split at found
        · next n skipped =>
          subst found
          refine .trans ?_ (ih (h.imp_left fun joins => (c.slot_advance n).symm ▸ joins))
          rw [rest_advance]
          rcases Option.or_eq_some_iff.mp skipped with markup | ⟨-, comment⟩
          · rw [Option.ite_none_left_eq_some] at markup
            exact leadsTo_markupComment markup.2
          · exact leadsTo_blanksAndComment comment
        · subst found
          dsimp only
          rw [rest_advance]
          exact leadsTo_run (fun _ => id) c.rest

/-- A punctuation token stands where it starts. -/
theorem start_lexemeIn (fuel : List Symbol) {c : Cursor} {mark : String} (h : (c.lexemeIn fuel).token = .punct mark)
    (other : mark ≠ "?") : (c.lexemeIn fuel).start.rest = Symbol.ofString mark ++ (c.lexemeIn fuel).stop.rest := by
  induction fuel generalizing c with
  | nil => cases h
  | cons x fuel ih =>
    generalize found : c.lexemeIn (x :: fuel) = l at h ⊢
    rw [lexemeIn] at found
    split at found
    · cases found
      cases h
    · split at found
      · cases found
        cases h
        exact absurd rfl other
      · dsimp only at found
        split at found
        · subst found
          exact ih h
        · subst found
          dsimp only at h ⊢
          rw [rest_advance _ (Token.read ..).2]
          exact Token.read_punct_eq (Prod.ext h rfl)

/-- A punctuation token stands behind blanks and comments. -/
theorem leadsTo_of_isPunct {c : Cursor} {mark : String} (h : c.lexeme.isPunct mark = true) (other : mark ≠ "?") :
    LeadsTo c.rest (Symbol.ofString mark ++ c.lexeme.stop.rest) := by
  have token : c.lexeme.token = .punct mark := beq_iff_eq.mp h
  rw [lexeme] at token ⊢
  rw [← start_lexemeIn _ token other]
  refine leadsTo_lexemeIn _ (.inr ?_)
  rw [token]
  exact fun same => other (Token.punct.inj same)

end Cursor

end IndexedLoop
