import IndexedLoop.Grammar.Program
import IndexedLoop.Proofs.Extents.Branch
import IndexedLoop.Proofs.Extents.Ends
import IndexedLoop.Proofs.Extents.Statement

/-!
# The surface tree of a source

The readers find their nodes at every level (`Level.finds_at`), by induction on how deep pieces may nest. So the
statements of a source that can be read lie in it one behind the other, inside of the extent of the program
(`Surface.Program.read_lies`).
-/

namespace IndexedLoop

open Surface Parse Grammar

/-! ## Blanks in front of a token -/

/-- A run ends where a symbol stands that is not of its kind. -/
theorem Lexical.runLength_le {p : Symbol → Bool} {x : Symbol} (other : p x = false) (s : List Symbol) (n : Nat)
    (h : (s.drop n).head? = some x) : runLength p s ≤ n := by
  induction n generalizing s with
  | zero =>
    cases s with
    | nil => cases h
    | cons y s =>
      obtain rfl : y = x := by simpa using h
      simp [runLength, other]
  | succ n ih =>
    cases s with
    | nil => cases h
    | cons y s =>
      have := ih s h
      rw [runLength]
      split <;> omega

theorem Lexical.head_of_startsWith {c : Char} {cs : List Char} {s : List Symbol} (h : startsWith (c :: cs) s) :
    s.head? = some (.char c) := by
  obtain ⟨rest, rfl⟩ := (startsWith_iff _ _).mp h
  rfl

/-- The blanks in front of a line that is a comment are skipped with it. -/
theorem Lexical.blanks_le_markupComment {s : List Symbol} {n : Nat} (h : markupComment? s = some n) : blanks s ≤ n := by
  rw [markupComment?] at h
  split at h
  · next opens =>
    cases h
    refine Nat.le_add_right_of_le ?_
    rcases Bool.or_eq_true_iff.mp opens with opens | opens
    · exact runLength_le (x := .char '<') (by decide) s _ (head_of_startsWith opens)
    · exact runLength_le (x := .char '-') (by decide) s _ (head_of_startsWith opens)
  · cases h

namespace Cursor

variable {src : List Symbol} {lo : Nat} {c : Cursor}

theorem offset_advance_mono (c : Cursor) {m n : Nat} (le : m ≤ n) : (c.advance m).offset ≤ (c.advance n).offset := by
  rw [offset_advance, offset_advance]
  obtain ⟨more, e⟩ := List.take_prefix_take_left le
  rw [← e, Symbol.sizes_append]
  omega

/-- Where no statement may end, the next token stands behind the blanks. -/
theorem On.near_blanks (h : c.On src) (plain : c.slot = .plain) :
    c.Near src (c.advance (Lexical.blanks c.rest)).offset := by
  refine ⟨h, ?_⟩
  rw [Cursor.lexeme, Cursor.lexemeIn, plain]
  simp only [Slot.plain, Bool.false_and, Bool.false_eq_true, ↓reduceIte, Bool.or_self]
  split
  · next n skipped =>
    refine ((h.advance n).lexemeIn (c.offset_advance_mono ?_) _).lower
    rcases Option.or_eq_some_iff.mp skipped with markup | ⟨-, comment⟩
    · exact Lexical.blanks_le_markupComment markup
    · obtain ⟨m, -, rfl⟩ := Option.map_eq_some_iff.mp comment
      exact Nat.le_add_right _ _
  · exact le_rfl

theorem On.offset_le (h : c.On src) : c.offset ≤ Symbol.sizes src := by
  obtain ⟨before, rfl, place⟩ := h
  rw [offset, place, Place.offset_origin_behind, Symbol.sizes_append]
  exact Nat.le_add_right _ _

end Cursor

/-! ## Levels -/

/-- The readers of every level find what they give back. -/
theorem Level.finds_at (src : List Symbol) (n : Nat) : (Level.at n).Finds src := by
  induction n with
  | zero =>
    have fails {α : Type} {nodes : α → List Node} : Parse.Finds src failure nodes :=
      fun _ _ _ => yields_failure _ _
    exact ⟨fun _ => fails, fun _ _ => fails, fun _ => fails, fun _ => fails, fun _ => fails, fun _ => fails,
      fun _ _ => yields_failure _ _, fun _ => single_failure, fun _ _ => single_failure, fun _ _ => yields_failure _ _,
      fun _ _ _ => yields_failure _ _⟩
  | succ n ih =>
    exact ⟨fun k => finds_expr ih k, fun k updates => finds_unary ih k updates, fun k => finds_callee ih k,
      fun k => finds_braced ih k, fun slot => finds_element ih slot, fun alone => finds_statement ih alone,
      fun alone => settles_statement ih.settles alone, single_expr, single_unary, spans_expr ih.spans_unary,
      spans_unary ih.spans_unary⟩

/-! ## Sources -/

namespace Grammar

variable {src : List Symbol} {lo : Nat} {g : Level} {c : Cursor}

theorem yields_hashBang (near : c.Near src lo) :
    Yields hashBang c fun ss d => ∃ mid, Node.AllLie src lo mid (ss.map .stmt) ∧ d.Near src mid := by
  simp only [hashBang, yields_bind, yields_look]
  refine Yields.ite ?_ ?_
  · simp only [yields_bind, yields_set, yields_pure]
    generalize Lexical.runLength _ c.lexeme.start.rest = n
    have h : (c.lexeme.start.advance n).Read src lo
        [.stmt (.other ⟨⟨c.lexeme.start.place, (c.lexeme.start.advance n).place⟩, .hashBangLine⟩)] :=
      near.node (near.on.lexeme.start.read.advance n) rfl trivial
    exact ⟨_, h.nodes, h.on.read.near⟩
  · simp only [yields_pure]
    exact ⟨lo, .nil le_rfl, near⟩

theorem yields_allStatementsIn (hg : g.Finds src) (n : List Symbol) (near : c.Near src lo) :
    Yields (allStatementsIn g n) c fun ss _ => Node.AllLie src lo (Symbol.sizes src) (ss.map .stmt) := by
  induction n generalizing c lo with
  | nil => exact yields_failure _ _
  | cons x n ih =>
    simp only [allStatementsIn, yields_bind, yields_look]
    refine Yields.ite ?_ ?_
    · simp only [yields_pure]
      exact .nil (near.lower.trans near.on.lexeme.start.offset_le)
    · simp only [yields_bind, yields_pure]
      refine (finds_statement hg _ near).mono fun s d h => ?_
      exact (ih h.on.read.near).mono fun ss _ rest => h.nodes.append rest

theorem yields_source (hg : g.Finds src) (near : c.Near src lo) :
    Yields (source g) c fun ss _ => Node.AllLie src lo (Symbol.sizes src) (ss.map .stmt) := by
  simp only [source, yields_bind, yields_rounds, yields_get, yields_guard, yields_pure]
  refine (yields_hashBang near).mono ?_
  rintro first d ⟨mid, line, near⟩
  refine (yields_allStatementsIn hg _ near).mono fun rest _ statements _ => ?_
  rw [List.map_append]
  exact line.append statements

end Grammar

namespace Surface.Program

/-- The program lies in a source: its statements lie inside of its extent, one behind the other. -/
structure Lies (src : List Symbol) (p : Surface.Program) : Prop where
  extent : p.extent.Lies src 0 (Symbol.sizes src)
  body : Node.AllLie src p.extent.start.offset p.extent.stop.offset (p.body.map .stmt)

theorem on_start (src : List Symbol) : (start src).On src := by
  rw [start]
  split
  · exact (Cursor.on_start src).advance 1
  · exact Cursor.on_start src

theorem slot_start (src : List Symbol) : (start src).slot = .plain := by
  rw [start]
  split
  · exact Cursor.slot_advance _ _
  · rfl

/-- What is read of a source lies in it. -/
theorem read_lies {src : List Symbol} {p : Surface.Program} (h : read? src = some p) : p.Lies src := by
  have on := on_start src
  have near := on.near_blanks (slot_start src)
  have first := on.advance (Lexical.blanks (start src).rest)
  have last : (start src).atEnd.On src := on.advance _
  have offset_last : (start src).atEnd.offset = Symbol.sizes src := by
    obtain ⟨before, e, place⟩ := last
    have rest : (start src).atEnd.rest = [] := by
      rw [Cursor.atEnd, Cursor.rest_advance, List.drop_length]
    rw [rest, List.append_nil] at e
    rw [Cursor.offset, place, Place.offset_origin_behind, e]
  rw [read?] at h
  split at h
  · cases h
  · split at h
    · cases h
    · next body _ run =>
      cases h
      have statements := yields_source (Level.finds_at src _) near body _ run
      refine ⟨⟨first.place_in, last.place_in, Nat.zero_le _, ?_, offset_last.le⟩, ?_⟩
      · exact first.offset_le.trans offset_last.ge
      · simpa only [Cursor.place_offset, offset_last] using statements

end Surface.Program

end IndexedLoop
