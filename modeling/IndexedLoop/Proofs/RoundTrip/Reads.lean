import IndexedLoop.Grammar.Program
import IndexedLoop.Proofs.RoundTrip.Marks

/-!
# What a reader reads

`Parse.Reads p c post` says that the reader `p` succeeds at the cursor `c`, and that what it reads and the
cursor behind it satisfy `post`. The rules take a reader apart step by step. Of a cursor it matters what
it sees (`Cursor.Sees`), or its slot and the text that follows (`Cursor.At`); in both cases nothing that
was read may stand in patterns only.
-/

namespace IndexedLoop

namespace Parse

variable {α β : Type}

/-- The reader succeeds here, with a result and a cursor that satisfy `post`. -/
def Reads (p : Parse α) (c : Cursor) (post : α → Cursor → Prop) : Prop :=
  ∃ a d, p c = some (a, d) ∧ post a d

theorem Reads.mono {p : Parse α} {c : Cursor} {post post' : α → Cursor → Prop} (h : Reads p c post)
    (imp : ∀ a d, post a d → post' a d) : Reads p c post' := by
  obtain ⟨a, d, e, hp⟩ := h
  exact ⟨a, d, e, imp a d hp⟩

theorem reads_of_eq {p : Parse α} {c d : Cursor} {a : α} {post : α → Cursor → Prop}
    (h : p c = some (a, d)) : Reads p c post ↔ post a d := by
  constructor
  · rintro ⟨a', d', e, hp⟩
    rw [h] at e
    cases e
    exact hp
  · intro hp
    exact ⟨a, d, h, hp⟩

@[simp]
theorem reads_pure (a : α) (c : Cursor) (post : α → Cursor → Prop) :
    Reads (pure a) c post ↔ post a c :=
  reads_of_eq rfl

@[simp]
theorem reads_bind (p : Parse α) (f : α → Parse β) (c : Cursor) (post : β → Cursor → Prop) :
    Reads (p >>= f) c post ↔ Reads p c fun a d => Reads (f a) d post := by
  constructor
  · rintro ⟨b, e, h, hp⟩
    obtain ⟨⟨a, d⟩, ha, hb⟩ := Option.bind_eq_some_iff.mp h
    exact ⟨a, d, ha, b, e, hb, hp⟩
  · rintro ⟨a, d, ha, b, e, hb, hp⟩
    exact ⟨b, e, Option.bind_eq_some_iff.mpr ⟨(a, d), ha, hb⟩, hp⟩

@[simp]
theorem reads_map (f : α → β) (p : Parse α) (c : Cursor) (post : β → Cursor → Prop) :
    Reads (f <$> p) c post ↔ Reads p c fun a d => post (f a) d := by
  rw [map_eq_pure_bind, reads_bind]
  simp only [reads_pure]

@[simp]
theorem reads_get (c : Cursor) (post : Cursor → Cursor → Prop) :
    Reads (get : Parse Cursor) c post ↔ post c c :=
  reads_of_eq rfl

@[simp]
theorem reads_set (d c : Cursor) (post : PUnit → Cursor → Prop) :
    Reads (set d : Parse PUnit) c post ↔ post ⟨⟩ d :=
  reads_of_eq rfl

@[simp]
theorem reads_modify (f : Cursor → Cursor) (c : Cursor) (post : PUnit → Cursor → Prop) :
    Reads (modify f : Parse PUnit) c post ↔ post ⟨⟩ (f c) :=
  reads_of_eq rfl

@[simp]
theorem reads_guard (b : Bool) (c : Cursor) (post : Unit → Cursor → Prop) :
    Reads (guard (b = true)) c post ↔ b = true ∧ post () c := by
  cases b
  · constructor
    · rintro ⟨a, d, e, -⟩
      cases e
    · rintro ⟨e, -⟩
      cases e
  · exact (reads_of_eq rfl).trans (by simp)

theorem not_reads_failure (c : Cursor) (post : α → Cursor → Prop) : ¬Reads failure c post := by
  rintro ⟨a, d, e, -⟩
  cases e

@[simp]
theorem reads_guard_true [Decidable True] (c : Cursor) (post : Unit → Cursor → Prop) :
    Reads (guard True) c post ↔ post () c := by
  rw [guard, if_pos trivial, reads_pure]

/-- The first of two readers that succeeds counts. -/
theorem Reads.left {p : Parse α} {c : Cursor} {post : α → Cursor → Prop} (h : Reads p c post)
    (q : Parse α) : Reads (p <|> q) c post := by
  obtain ⟨a, d, e, hp⟩ := h
  refine ⟨a, d, ?_, hp⟩
  show (p c <|> q c) = _
  rw [e]
  rfl

/-- The second of two readers counts where the first fails. -/
theorem Reads.right {p q : Parse α} {c : Cursor} {post : α → Cursor → Prop} (none : p c = none)
    (h : Reads q c post) : Reads (p <|> q) c post := by
  obtain ⟨a, d, e, hp⟩ := h
  refine ⟨a, d, ?_, hp⟩
  show (p c <|> q c) = _
  rw [none, e]
  rfl

@[simp]
theorem reads_look (c : Cursor) (post : Lexeme → Cursor → Prop) :
    Reads look c post ↔ post c.lexeme c :=
  reads_of_eq rfl

@[simp]
theorem reads_accept (l : Lexeme) (slot : Slot) (c : Cursor) (post : Unit → Cursor → Prop) :
    Reads (accept l slot) c post ↔ post () (l.stop.facing slot) :=
  reads_of_eq rfl

@[simp]
theorem reads_face (slot : Slot) (c : Cursor) (post : Unit → Cursor → Prop) :
    Reads (face slot) c post ↔ post () (c.facing slot) :=
  reads_of_eq rfl

@[simp]
theorem reads_extentFrom (p : Place) (c : Cursor) (post : Extent → Cursor → Prop) :
    Reads (extentFrom p) c post ↔ post ⟨p, c.place⟩ c :=
  reads_of_eq rfl

@[simp]
theorem reads_rounds (p : List Symbol → Parse α) (c : Cursor) (post : α → Cursor → Prop) :
    Reads (rounds p) c post ↔ Reads (p (.char ' ' :: c.rest)) c post :=
  Iff.rfl

@[simp]
theorem reads_tryPunct (p : String) (slot : Slot) (c : Cursor) (post : Bool → Cursor → Prop) :
    Reads (tryPunct p slot) c post ↔
      if c.lexeme.isPunct p then post true (c.lexeme.stop.facing slot) else post false c := by
  simp only [tryPunct, reads_bind, reads_look]
  split <;> simp

@[simp]
theorem reads_tryWord (w : String) (slot : Slot) (c : Cursor) (post : Bool → Cursor → Prop) :
    Reads (tryWord w slot) c post ↔
      if c.lexeme.isWord w then post true (c.lexeme.stop.facing slot) else post false c := by
  simp only [tryWord, reads_bind, reads_look]
  split <;> simp

@[simp]
theorem reads_expect (p : String) (slot : Slot) (c : Cursor) (post : Unit → Cursor → Prop) :
    Reads (expect p slot) c post ↔
      c.lexeme.isPunct p = true ∧ post () (c.lexeme.stop.facing slot) := by
  simp only [expect, reads_bind, reads_tryPunct, reads_guard]
  split <;> simp_all

@[simp]
theorem reads_tryInserted (slot : Slot) (c : Cursor) (post : Bool → Cursor → Prop) :
    Reads (tryInserted slot) c post ↔
      if c.lexeme.token = .inserted then post true (c.lexeme.stop.facing slot) else post false c := by
  simp only [tryInserted, reads_bind, reads_look, beq_iff_eq]
  split <;> simp

@[simp]
theorem reads_semicolon (c : Cursor) (post : Unit → Cursor → Prop) :
    Reads semicolon c post ↔
      (c.lexeme.isPunct ";" || c.lexeme.token == .inserted) = true ∧
        post () (c.lexeme.stop.facing .plain) := by
  simp only [semicolon, reads_bind, reads_look, reads_guard, reads_accept]

/-! ## Readers that may fail -/

/-- If the reader succeeds here, the result and the cursor satisfy `post`. -/
def Yields (p : Parse α) (c : Cursor) (post : α → Cursor → Prop) : Prop :=
  ∀ a d, p c = some (a, d) → post a d

/-- There is only one way to read. -/
theorem Reads.yields {p : Parse α} {c : Cursor} {post : α → Cursor → Prop} (h : Reads p c post) :
    Yields p c post := by
  obtain ⟨a, d, e, hp⟩ := h
  intro a' d' e'
  rw [e] at e'
  cases e'
  exact hp

theorem Yields.mono {p : Parse α} {c : Cursor} {post post' : α → Cursor → Prop} (h : Yields p c post)
    (imp : ∀ a d, post a d → post' a d) : Yields p c post' :=
  fun a d e => imp a d (h a d e)

theorem yields_of_eq {p : Parse α} {c d : Cursor} {a : α} {post : α → Cursor → Prop}
    (h : p c = some (a, d)) : Yields p c post ↔ post a d :=
  ⟨fun hp => hp a d h, fun hp => Reads.yields ⟨a, d, h, hp⟩⟩

@[simp]
theorem yields_failure (c : Cursor) (post : α → Cursor → Prop) : Yields failure c post := by
  intro a d e
  cases e

@[simp]
theorem yields_pure (a : α) (c : Cursor) (post : α → Cursor → Prop) : Yields (pure a) c post ↔ post a c :=
  yields_of_eq rfl

@[simp]
theorem yields_bind (p : Parse α) (f : α → Parse β) (c : Cursor) (post : β → Cursor → Prop) :
    Yields (p >>= f) c post ↔ Yields p c fun a d => Yields (f a) d post := by
  constructor
  · intro h a d ha b e hb
    exact h b e (Option.bind_eq_some_iff.mpr ⟨(a, d), ha, hb⟩)
  · intro h b e run
    obtain ⟨⟨a, d⟩, ha, hb⟩ := Option.bind_eq_some_iff.mp run
    exact h a d ha b e hb

@[simp]
theorem yields_map (f : α → β) (p : Parse α) (c : Cursor) (post : β → Cursor → Prop) :
    Yields (f <$> p) c post ↔ Yields p c fun a d => post (f a) d := by
  rw [map_eq_pure_bind, yields_bind]
  simp only [yields_pure]

@[simp]
theorem yields_get (c : Cursor) (post : Cursor → Cursor → Prop) :
    Yields (get : Parse Cursor) c post ↔ post c c :=
  yields_of_eq rfl

@[simp]
theorem yields_modify (f : Cursor → Cursor) (c : Cursor) (post : PUnit → Cursor → Prop) :
    Yields (modify f : Parse PUnit) c post ↔ post ⟨⟩ (f c) :=
  yields_of_eq rfl

@[simp]
theorem yields_guard (b : Bool) (c : Cursor) (post : Unit → Cursor → Prop) :
    Yields (guard (b = true)) c post ↔ (b = true → post () c) := by
  cases b with
  | false =>
    refine ⟨fun _ e => Bool.noConfusion e, fun _ => ?_⟩
    intro a d e
    cases e
  | true => exact (yields_of_eq rfl).trans (by simp)

@[simp]
theorem yields_look (c : Cursor) (post : Lexeme → Cursor → Prop) :
    Yields look c post ↔ post c.lexeme c :=
  yields_of_eq rfl

@[simp]
theorem yields_accept (l : Lexeme) (slot : Slot) (c : Cursor) (post : Unit → Cursor → Prop) :
    Yields (accept l slot) c post ↔ post () (l.stop.facing slot) :=
  yields_of_eq rfl

@[simp]
theorem yields_face (slot : Slot) (c : Cursor) (post : Unit → Cursor → Prop) :
    Yields (face slot) c post ↔ post () (c.facing slot) :=
  yields_of_eq rfl

@[simp]
theorem yields_extentFrom (p : Place) (c : Cursor) (post : Extent → Cursor → Prop) :
    Yields (extentFrom p) c post ↔ post ⟨p, c.place⟩ c :=
  yields_of_eq rfl

@[simp]
theorem yields_rounds (p : List Symbol → Parse α) (c : Cursor) (post : α → Cursor → Prop) :
    Yields (rounds p) c post ↔ Yields (p (.char ' ' :: c.rest)) c post :=
  Iff.rfl

@[simp]
theorem yields_tryPunct (p : String) (slot : Slot) (c : Cursor) (post : Bool → Cursor → Prop) :
    Yields (tryPunct p slot) c post ↔
      if c.lexeme.isPunct p then post true (c.lexeme.stop.facing slot) else post false c := by
  simp only [tryPunct, yields_bind, yields_look]
  split
  · exact yields_of_eq rfl
  · exact yields_pure _ _ _

@[simp]
theorem yields_expect (p : String) (slot : Slot) (c : Cursor) (post : Unit → Cursor → Prop) :
    Yields (expect p slot) c post ↔ (c.lexeme.isPunct p = true → post () (c.lexeme.stop.facing slot)) := by
  simp only [expect, yields_bind, yields_tryPunct, yields_guard]
  split <;> simp_all

@[simp]
theorem yields_tryInserted (slot : Slot) (c : Cursor) (post : Bool → Cursor → Prop) :
    Yields (tryInserted slot) c post ↔
      if c.lexeme.token = .inserted then post true (c.lexeme.stop.facing slot) else post false c := by
  simp only [tryInserted, yields_bind, yields_look, beq_iff_eq]
  split
  · exact yields_of_eq rfl
  · exact yields_pure _ _ _

/-! ## Alternatives -/

theorem reads_orElse_left {p q : Parse α} {c : Cursor} {post : α → Cursor → Prop} (h : Reads p c post) :
    Reads (p <|> q) c post := by
  obtain ⟨a, d, e, hp⟩ := h
  refine ⟨a, d, ?_, hp⟩
  show (p c <|> q c) = _
  rw [e]
  rfl

/-- The second reader counts where the first one fails. -/
theorem reads_orElse_right {p q : Parse α} {c : Cursor} {post : α → Cursor → Prop}
    (fails : Yields p c fun _ _ => False) (h : Reads q c post) : Reads (p <|> q) c post := by
  obtain ⟨a, d, e, hp⟩ := h
  refine ⟨a, d, ?_, hp⟩
  show (p c <|> q c) = _
  cases run : p c with
  | none => exact e
  | some r => exact (fails r.1 r.2 run).elim

end Parse

/-! ## Cursors -/

namespace Cursor

/-- The cursor sees this. -/
structure Sees (c : Cursor) (v : View) : Prop where
  pending : c.pending = []
  view : c.lexeme.view = v

/-- The cursor stands at a slot in front of a text. -/
structure At (c : Cursor) (slot : Slot) (s : List Symbol) : Prop where
  slot : c.slot = slot
  rest : c.rest = s
  pending : c.pending = []

variable {c : Cursor} {v : View} {slot : Slot} {s : List Symbol}

theorem At.sees (h : c.At slot s) : c.Sees (View.of slot s) :=
  ⟨h.pending, by rw [lexeme_view, h.slot, h.rest]⟩

theorem Sees.token (h : c.Sees v) : c.lexeme.token = v.token :=
  congrArg View.token h.view

theorem Sees.start (h : c.Sees v) : c.lexeme.start.rest = v.start :=
  congrArg View.start h.view

theorem Sees.stop (h : c.Sees v) : c.lexeme.stop.rest = v.stop :=
  congrArg View.stop h.view

/-- Behind the token that was seen. -/
theorem Sees.accept (h : c.Sees v) (slot : Slot) : (c.lexeme.stop.facing slot).At slot v.stop :=
  ⟨rfl, h.stop, (pending_lexeme_stop c).trans h.pending⟩

theorem Sees.isPunct (h : c.Sees v) (p : String) : c.lexeme.isPunct p = (v.token == .punct p) := by
  rw [Lexeme.isPunct, h.token]

theorem Sees.isWord (h : c.Sees v) (w : String) : c.lexeme.isWord w = (v.token == .word w) := by
  rw [Lexeme.isWord, h.token]

theorem At.facing (h : c.At slot s) (slot' : Slot) : (c.facing slot').At slot' s :=
  ⟨rfl, h.rest, h.pending⟩

/-- The cursor sees what starts a text. -/
def Starts (c : Cursor) (s : List Symbol) : Prop := c.Sees (View.of .plain s)

theorem At.starts (h : c.At .plain s) : c.Starts s := h.sees

theorem Starts.of_space (h : c.Starts (.char ' ' :: s)) (calm : Calm s) : c.Starts s := by
  rwa [Starts, calm.view_space] at h

end Cursor

end IndexedLoop
