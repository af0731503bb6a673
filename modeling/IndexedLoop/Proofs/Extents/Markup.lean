import IndexedLoop.Proofs.Extents.Function
import IndexedLoop.Grammar.Markup

/-!
# Markup in its source

An element keeps nothing of its content, so all that is said here is that reading it goes forward.
-/

namespace IndexedLoop.Grammar

open Surface Parse

variable {src : List Symbol} {lo : Nat} {c : Cursor}

theorem passes_atMark (text : String) : Passes src (atMark text) := by
  intro c lo near
  simp only [atMark, yields_bind, yields_look, yields_pure]
  exact ⟨near, near.on.read⟩

theorem finds_mark (text : String) (slot : Slot) : Finds src (mark text slot) fun _ => [] := by
  intro c lo near
  simp only [mark, yields_bind, yields_look, yields_guard, yields_set]
  exact fun _ => near.advance _ _

theorem finds_markupWord : Finds src markupWord fun _ => [] := by
  intro c lo near
  simp only [markupWord, yields_bind, yields_look]
  split
  · simp only [yields_bind, yields_set, yields_pure]
    exact near.advance _ _
  · simp only [yields_bind, yields_accept, yields_pure]
    exact near.pass _
  · exact yields_failure _ _

theorem finds_markupName (members : Bool) : Finds src (markupName members) fun _ => [] := by
  intro c lo near
  simp only [markupName, yields_bind]
  refine (finds_markupWord near).mono fun isWord d h => ?_
  refine ((passes_atMark _).skip h).mono fun isQualified d h => ?_
  split
  · simp only [yields_bind, yields_pure]
    exact ((finds_mark _ _).skip h).mono fun _ d h => finds_markupWord.skip h
  split
  · exact yields_pathIn _ h
  · simp only [yields_pure]
    exact h

theorem yields_attributeStringIn (quote : Char) (n : List Symbol) (h : c.Read src lo []) :
    Yields (attributeStringIn quote n) c fun _ d => d.Read src lo [] := by
  induction n generalizing c with
  | nil => exact yields_failure _ _
  | cons x n ih =>
    simp only [attributeStringIn, yields_bind, yields_get]
    split
    · simp only [yields_bind, yields_set]
      exact ih (h.advance _)
    split
    · simp only [yields_bind, yields_set]
      exact ih (h.advance _)
    · simp only [yields_bind, yields_guard, yields_set]
      exact fun _ => h.advance _

variable {g : Level} (hg : g.Finds src)
include hg

theorem finds_markupBraces : Finds src (markupBraces g) fun _ => [] := by
  intro c lo near
  simp only [markupBraces, yields_bind, yields_look]
  refine (finds_mark _ _ near).mono fun _ d h => ?_
  split
  · simp only [yields_accept]
    exact h.accept _
  split
  · simp only [yields_bind, yields_accept]
    exact ((hg.expr _).skip (h.accept _)).mono fun _ d h => (finds_expect _ _).skip h
  · simp only [yields_bind, yields_pure]
    exact (finds_enclosed hg _ _).skip h

theorem yields_attributeValue (h : c.Read src lo []) : Yields (attributeValue g) c fun _ d => d.Read src lo [] := by
  simp only [attributeValue, yields_bind]
  refine ((passes_atMark _).skip h).mono fun isDouble d h => ?_
  split
  · simp only [yields_bind]
    exact ((finds_mark _ _).skip h).mono fun _ d h => yields_attributeStringIn _ _ h
  simp only [yields_bind]
  refine ((passes_atMark _).skip h).mono fun isSingle d h => ?_
  split
  · simp only [yields_bind]
    exact ((finds_mark _ _).skip h).mono fun _ d h => yields_attributeStringIn _ _ h
  simp only [yields_bind]
  refine ((passes_atMark _).skip h).mono fun isBraced d h => ?_
  split
  · exact (finds_markupBraces hg).skip h
  · simp only [yields_bind, yields_pure]
    exact (hg.element _).skip h

theorem yields_attributesIn (n : List Symbol) (h : c.Read src lo []) :
    Yields (attributesIn g n) c fun _ d => d.Read src lo [] := by
  induction n generalizing c with
  | nil => exact yields_failure _ _
  | cons x n ih =>
    simp only [attributesIn, yields_bind]
    refine ((passes_atMark _).skip h).mono fun isSpread d h => ?_
    split
    · simp only [yields_bind]
      exact ((finds_markupBraces hg).skip h).mono fun _ d h => ih h
    simp only [yields_bind]
    refine ((passes_atMark _).skip h).mono fun isEnd d h => ?_
    refine ((passes_atMark _).skip h).mono fun isEmptyEnd d h => ?_
    split
    · simp only [yields_pure]
      exact h
    simp only [yields_bind]
    refine ((finds_markupName _).skip h).mono fun _ d h => ?_
    refine ((passes_atMark _).skip h).mono fun hasValue d h => ?_
    split
    · simp only [yields_bind]
      refine ((finds_mark _ _).skip h).mono fun _ d h => ?_
      exact (yields_attributeValue hg h).mono fun _ d h => ih h
    · exact ih h

theorem yields_contentIn (n : List Symbol) (h : c.Read src lo []) :
    Yields (contentIn g n) c fun _ d => d.Read src lo [] := by
  induction n generalizing c with
  | nil => exact yields_failure _ _
  | cons x n ih =>
    simp only [contentIn, yields_bind, yields_get]
    split
    · simp only [yields_bind, yields_set]
      exact ih (h.advance _)
    split
    · simp only [yields_bind, yields_set]
      exact ih (h.advance _)
    simp only [yields_bind, yields_look]
    split
    · simp only [yields_bind, yields_set]
      exact ih (h.near.advance _ _)
    simp only [yields_bind]
    refine ((passes_atMark _).skip h).mono fun isEnd d h => ?_
    split
    · exact (finds_mark _ _).skip h
    simp only [yields_bind]
    refine ((passes_atMark _).skip h).mono fun isBraced d h => ?_
    split
    · simp only [yields_bind]
      exact ((finds_markupBraces hg).skip h).mono fun _ d h => ih h
    · simp only [yields_bind]
      exact ((hg.element _).skip h).mono fun _ d h => ih h

theorem yields_elementTail (slot : Slot) (h : c.Read src lo []) :
    Yields (elementTail g slot) c fun _ d => d.Read src lo [] := by
  simp only [elementTail, lose, yields_bind, yields_modify, yields_rounds]
  refine (yields_contentIn hg _ ((Cursor.read_losses _).mpr h)).mono fun _ d h => ?_
  refine ((passes_atMark _).skip h).mono fun isNameless d h => ?_
  split
  · simp only [yields_bind, yields_pure]
    exact (finds_mark _ _).skip h
  · simp only [yields_bind, yields_pure]
    exact ((finds_markupName _).skip h).mono fun _ d h => (finds_mark _ _).skip h

theorem finds_element (slot : Slot) : Finds src (element g slot) fun _ => [] := by
  intro c lo near
  simp only [element, yields_bind]
  refine (finds_mark _ _ near).mono fun _ d h => ?_
  refine ((passes_atMark _).skip h).mono fun isNameless d h => ?_
  split
  · simp only [yields_bind]
    exact ((finds_mark _ _).skip h).mono fun _ d h => yields_elementTail hg slot h
  simp only [yields_bind, yields_rounds]
  refine ((finds_markupName _).skip h).mono fun _ d h => ?_
  refine (yields_attributesIn hg _ h).mono fun _ d h => ?_
  refine ((passes_atMark _).skip h).mono fun isEmpty d h => ?_
  split
  · simp only [yields_bind, yields_pure]
    exact (finds_mark _ _).skip h
  · simp only [yields_bind]
    exact ((finds_mark _ _).skip h).mono fun _ d h => yields_elementTail hg slot h

end IndexedLoop.Grammar
