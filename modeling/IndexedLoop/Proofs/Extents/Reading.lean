import IndexedLoop.Proofs.Extents.Tree
import IndexedLoop.Proofs.RoundTrip.Reads

/-!
# Readers that keep to the source

`Cursor.Near` says of a cursor that its next token starts in the source and not before an offset, and
`Cursor.Read` that nodes lie in front of it in their order. A reader finds nodes (`Parse.Finds`) if wherever it
starts near an offset, it ends behind the nodes that it gives back. Readers in a row find their nodes in a row
(`Parse.Finds.after`), and what was found from a place on makes up a node that starts there (`Cursor.Read.node`).
-/

namespace IndexedLoop

open Surface

/-! ## More rules for readers that may fail -/

namespace Parse

variable {α β : Type} {c : Cursor}

@[simp]
theorem yields_set (d c : Cursor) (post : PUnit → Cursor → Prop) :
    Yields (set d : Parse PUnit) c post ↔ post ⟨⟩ d :=
  yields_of_eq rfl

@[simp]
theorem yields_true (p : Parse α) (c : Cursor) : Yields p c fun _ _ => True := fun _ _ _ => trivial

@[simp]
theorem yields_tryWord (w : String) (slot : Slot) (c : Cursor) (post : Bool → Cursor → Prop) :
    Yields (tryWord w slot) c post ↔
      if c.lexeme.isWord w then post true (c.lexeme.stop.facing slot) else post false c := by
  simp only [tryWord, yields_bind, yields_look]
  split <;> simp only [yields_bind, yields_accept, yields_pure]

@[simp]
theorem yields_guard_prop (p : Prop) [Decidable p] (c : Cursor) (post : Unit → Cursor → Prop) :
    Yields (guard p) c post ↔ (p → post () c) := by
  rw [guard]
  split
  · next h => rw [yields_pure, forall_prop_of_true h]
  · next h => simp [h]

/-- What both of two readers give, the first that succeeds gives. -/
theorem Yields.and {p : Parse α} {post post' : α → Cursor → Prop} (h : Yields p c post) (h' : Yields p c post') :
    Yields p c fun a d => post a d ∧ post' a d := fun a d run => ⟨h a d run, h' a d run⟩

theorem Yields.orElse {p q : Parse α} {post : α → Cursor → Prop} (hp : Yields p c post) (hq : Yields q c post) :
    Yields (p <|> q) c post := by
  intro a d run
  have run : (p c <|> q c) = some (a, d) := run
  cases h : p c with
  | none =>
    rw [h] at run
    exact hq a d run
  | some r =>
    rw [h] at run
    exact hp a d (h.trans run)

theorem Yields.ite {p q : Parse α} {post : α → Cursor → Prop} {cond : Prop} [Decidable cond] (hp : Yields p c post)
    (hq : Yields q c post) : Yields (if cond then p else q) c post := by
  split
  · exact hp
  · exact hq

theorem Yields.contest {p q : Parse α} {doubtful : Cursor → α → Cursor → Bool} {prefers : Parse Bool}
    {post : α → Cursor → Prop} (hp : Yields p c post) (hq : Yields q c post) :
    Yields (contest p q doubtful prefers) c post := by
  intro a d run
  rw [Parse.contest] at run
  split at run
  · exact hq a d run
  · next a' d' first =>
    split at run
    · rcases Option.or_eq_some_iff.mp run with h | ⟨-, h⟩
      · exact hq a d h
      · exact hp a d (first.trans h)
    · exact hp a d (first.trans run)

end Parse

/-! ## Cursors near nodes -/

namespace Cursor

variable {src : List Symbol} {lo lo' : Nat} {xs ys : List Node} {c d : Cursor}

/-- The next token of the cursor starts in the source, and not before an offset. -/
structure Near (src : List Symbol) (lo : Nat) (c : Cursor) : Prop where
  on : c.On src
  lower : lo ≤ c.lexeme.start.offset

/-- Nodes lie in front of the cursor, one behind the other and not before an offset. -/
structure Read (src : List Symbol) (lo : Nat) (nodes : List Node) (c : Cursor) : Prop where
  on : c.On src
  nodes : Node.AllLie src lo c.offset nodes

theorem Read.le (h : c.Read src lo xs) : lo ≤ c.offset := h.nodes.le

theorem Read.near (h : c.Read src lo xs) : c.Near src lo := ⟨h.on, h.le.trans h.on.lexeme.lower⟩

theorem On.read (h : c.On src) : c.Read src c.offset [] := ⟨h, .nil le_rfl⟩

@[simp]
theorem read_facing (slot : Slot) : (c.facing slot).Read src lo xs ↔ c.Read src lo xs :=
  ⟨fun h => ⟨h.on, h.nodes⟩, fun h => ⟨h.on, h.nodes⟩⟩

@[simp]
theorem read_pending (pending : List Place) : Read src lo xs { c with pending } ↔ c.Read src lo xs :=
  ⟨fun h => ⟨h.on, h.nodes⟩, fun h => ⟨h.on, h.nodes⟩⟩

@[simp]
theorem read_gains (gains : Nat) : Read src lo xs { c with gains } ↔ c.Read src lo xs :=
  ⟨fun h => ⟨h.on, h.nodes⟩, fun h => ⟨h.on, h.nodes⟩⟩

@[simp]
theorem read_losses (losses : Nat) : Read src lo xs { c with losses } ↔ c.Read src lo xs :=
  ⟨fun h => ⟨h.on, h.nodes⟩, fun h => ⟨h.on, h.nodes⟩⟩

theorem Read.lower (h : c.Read src lo xs) (le : lo' ≤ lo) : c.Read src lo' xs :=
  ⟨h.on, h.nodes.mono le le_rfl⟩

theorem Read.clear (h : c.Read src lo xs) : c.Read src lo [] := ⟨h.on, .nil h.le⟩

theorem Read.append (h : c.Read src lo xs) (h' : d.Read src c.offset ys) : d.Read src lo (xs ++ ys) :=
  ⟨h'.on, h.nodes.append h'.nodes⟩

/-- Whatever was read on the way to a later cursor, the nodes lie in front of it too. -/
theorem Read.later (h : c.Read src lo xs) (h' : d.Read src c.offset ys) : d.Read src lo xs :=
  ⟨h'.on, h.nodes.mono le_rfl h'.le⟩

/-- What was found from a place on makes up a node that starts there. -/
theorem Read.node {start : Place} {node : Node} (h : d.Read src start.offset node.parts) (start_in : start.In src)
    (extent : node.extent = ⟨start, d.place⟩) (faithful : node.Faithful src) : d.Read src start.offset [node] := by
  refine ⟨h.on, lined_singleton.mpr (Node.lies_iff.mpr ⟨?_, faithful, ?_⟩)⟩
  · rw [extent]
    exact Extent.lies_of_on start_in h.on h.le
  · rw [extent]
    exact h.nodes

/-- What lies behind a node starts no earlier than the node. -/
theorem Read.tight {first : Node} (h : c.Read src lo (first :: xs)) :
    first.extent.start.In src ∧ lo ≤ first.extent.start.offset ∧
      c.Read src first.extent.start.offset (first :: xs) := by
  obtain ⟨mid, lies, rest⟩ := lined_cons.mp h.nodes
  have extent := lies.extent
  exact ⟨extent.start, extent.lower, h.on, .cons (lies.tight.mono le_rfl extent.upper) rest⟩

/-- What was found makes up a node that starts with the first of it. -/
theorem Read.extend {first node : Node} (h : c.Read src lo (first :: xs)) (parts : node.parts = first :: xs)
    (extent : node.extent = ⟨first.extent.start, c.place⟩) (faithful : node.Faithful src) : c.Read src lo [node] := by
  obtain ⟨start_in, lower, tight⟩ := h.tight
  exact (Read.node (parts ▸ tight) start_in extent faithful).lower lower

/-- What was found is covered by a node without parts that starts with the first of it. -/
theorem Read.cover {first node : Node} (h : c.Read src lo (first :: xs)) (parts : node.parts = [])
    (extent : node.extent = ⟨first.extent.start, c.place⟩) (faithful : node.Faithful src) : c.Read src lo [node] := by
  obtain ⟨start_in, lower, tight⟩ := h.tight
  exact (Read.node (parts ▸ tight.clear) start_in extent faithful).lower lower

/-- A node with a single part and its extent lies where its part does. -/
theorem Read.wrap {node part : Node} (h : c.Read src lo [part]) (extent : node.extent = part.extent)
    (parts : node.parts = [part]) (faithful : node.Faithful src) : c.Read src lo [node] := by
  have lies := lined_singleton.mp h.nodes
  refine ⟨h.on, lined_singleton.mpr (Node.lies_iff.mpr ⟨?_, faithful, ?_⟩)⟩
  · rw [extent]
    exact lies.extent
  · rw [extent, parts]
    exact lined_singleton.mpr lies.tight

/-! ## Tokens -/

theorem Near.start_in (h : c.Near src lo) : c.lexeme.start.place.In src := h.on.lexeme.start.place_in

/-- The next token starts where it starts. -/
theorem Near.tight (h : c.Near src lo) : c.Near src c.lexeme.start.offset := ⟨h.on, le_rfl⟩

/-- Behind the next token. -/
theorem Near.accept (h : c.Near src lo) (slot : Slot) :
    (c.lexeme.stop.facing slot).Read src c.lexeme.start.offset [] :=
  ⟨h.on.lexeme.stop, .nil h.on.lexeme.ordered⟩

theorem Near.pass (h : c.Near src lo) (slot : Slot) : (c.lexeme.stop.facing slot).Read src lo [] :=
  (h.accept slot).lower h.lower

theorem Read.accept (h : c.Read src lo xs) (slot : Slot) : (c.lexeme.stop.facing slot).Read src lo xs :=
  h.later (h.on.read.near.pass slot)

theorem Read.advance (h : c.Read src lo xs) (n : Nat) : (c.advance n).Read src lo xs :=
  ⟨h.on.advance n, h.nodes.mono le_rfl (c.le_offset_advance n)⟩

/-- Behind some text at the start of the next token. -/
theorem Near.advance (h : c.Near src lo) (n : Nat) (slot : Slot) :
    ((c.lexeme.start.advance n).facing slot).Read src lo [] :=
  (read_facing slot).mpr ((h.on.lexeme.start.read.advance n).lower h.lower)

/-- What was found from the next token on makes up a node that starts with it. -/
theorem Near.node {node : Node} (near : c.Near src lo) (h : d.Read src c.lexeme.start.offset node.parts)
    (extent : node.extent = ⟨c.lexeme.start.place, d.place⟩) (faithful : node.Faithful src) :
    d.Read src lo [node] :=
  (h.node near.start_in extent faithful).lower near.lower

/-- The next token by itself is a node. -/
theorem Near.leaf {node : Node} (near : c.Near src lo) (slot : Slot) (extent : node.extent = c.lexeme.extent)
    (parts : node.parts = []) (faithful : node.Faithful src) : (c.lexeme.stop.facing slot).Read src lo [node] :=
  near.node (parts ▸ near.accept slot) extent faithful

/-- The next token is a name. -/
theorem Near.name (near : c.Near src lo) {text : String} (token : c.lexeme.token = .word text) (slot : Slot) :
    (c.lexeme.stop.facing slot).Read src lo [.name ⟨c.lexeme.extent, text⟩] := by
  obtain ⟨t, spells, spelled⟩ := near.on.lexeme.spelled
  rw [token] at spelled
  obtain rfl : t = Symbol.ofString text := spelled
  exact near.leaf slot rfl rfl spells

/-- The next token is a literal. -/
theorem Near.literal (near : c.Near src lo) {l : LiteralClass} {text : List Symbol}
    (token : ∀ t, c.lexeme.token.Spelled t → t = text ∧ l.Written t) (slot : Slot) :
    (c.lexeme.stop.facing slot).Read src lo [.literal ⟨c.lexeme.extent, l, text⟩] := by
  obtain ⟨t, spells, spelled⟩ := near.on.lexeme.spelled
  obtain ⟨rfl, written⟩ := token t spelled
  exact near.leaf slot rfl rfl ⟨spells, written⟩

end Cursor

/-! ## Readers -/

namespace Parse

variable {α : Type} {src : List Symbol} {lo : Nat} {c : Cursor} {p : Parse α} {nodes : α → List Node} {xs : List Node}

/-- Wherever the reader starts near an offset, it ends behind the nodes that it gives back. -/
def Finds (src : List Symbol) (p : Parse α) (nodes : α → List Node) : Prop :=
  ∀ ⦃c lo⦄, c.Near src lo → Yields p c fun a d => d.Read src lo (nodes a)

/-- The reader goes forward, and if it reads nothing, what comes next does not change. -/
def Passes (src : List Symbol) (p : Parse α) : Prop :=
  ∀ ⦃c lo⦄, c.Near src lo → Yields p c fun _ d => d.Near src lo ∧ d.Read src c.offset []

/-- Readers in a row find their nodes in a row. -/
theorem Finds.after (h : Finds src p nodes) (before : c.Read src lo xs) :
    Yields p c fun a d => d.Read src lo (xs ++ nodes a) :=
  (h before.on.read.near).mono fun _ _ => before.append

/-- What a reader finds may be left out. -/
theorem Finds.skip (h : Finds src p nodes) (before : c.Read src lo xs) : Yields p c fun _ d => d.Read src lo xs :=
  (h before.on.read.near).mono fun _ _ => before.later

theorem Finds.passes (h : Finds src p nodes) : Passes src p := fun _ _ near a d run =>
  ⟨(h near a d run).near, (h near.on.read.near a d run).clear⟩

theorem Passes.bind {β : Type} {f : α → Parse β} (h : Passes src p) (h' : ∀ a, Passes src (f a)) :
    Passes src (p >>= f) := by
  intro c lo near
  rw [yields_bind]
  refine (h near).mono fun a d passed => ?_
  exact (h' a passed.1).mono fun b e again => ⟨again.1, passed.2.later again.2⟩

theorem passes_pure (a : α) : Passes src (pure a) := fun _ _ near => (yields_pure _ _ _).mpr ⟨near, near.on.read⟩

theorem Passes.skip (h : Passes src p) (before : c.Read src lo xs) : Yields p c fun _ d => d.Read src lo xs :=
  (h before.near).mono fun _ _ passed => before.later passed.2

/-! ## Tokens -/

/-- Reading the next token if it is wanted. -/
theorem passes_tryToken (wanted : Lexeme → Bool) (slot : Slot) :
    Passes src (do
      let l ← look
      if wanted l then
        accept l slot
        return true
      else return false) := by
  intro c lo near
  simp only [yields_bind, yields_look]
  split
  · simp only [yields_bind, yields_accept, yields_pure]
    exact ⟨(near.pass slot).near, near.on.read.accept slot⟩
  · simp only [yields_pure]
    exact ⟨near, near.on.read⟩

theorem passes_tryPunct (mark : String) (slot : Slot) : Passes src (tryPunct mark slot) :=
  passes_tryToken (·.isPunct mark) slot

theorem passes_tryWord (w : String) (slot : Slot) : Passes src (tryWord w slot) :=
  passes_tryToken (·.isWord w) slot

theorem passes_tryInserted (slot : Slot) : Passes src (tryInserted slot) :=
  passes_tryToken (·.token == .inserted) slot

/-- Reading a token that has to be there. -/
theorem finds_expect (mark : String) (slot : Slot) : Finds src (expect mark slot) fun _ => [] := by
  intro c lo near
  rw [yields_expect]
  exact fun _ => near.pass slot

theorem finds_expectWord (w : String) (slot : Slot) : Finds src (expectWord w slot) fun _ => [] := by
  intro c lo near
  simp only [expectWord, tryWord, yields_bind, yields_look]
  split
  · simp only [yields_bind, yields_accept, yields_pure, yields_guard]
    exact fun _ => near.pass slot
  · simp

theorem finds_semicolon : Finds src semicolon fun _ => [] := by
  intro c lo near
  simp only [semicolon, yields_bind, yields_look, yields_guard, yields_accept]
  exact fun _ => near.pass .plain

theorem finds_string (slot : Slot) : Finds src (string slot) fun _ => [] := by
  intro c lo near
  simp only [string, yields_bind, yields_look]
  split
  · simp only [yields_accept]
    exact near.pass slot
  · exact yields_failure _ _

theorem finds_word (slot : Slot) : Finds src (word slot) fun n => [.name n] := by
  intro c lo near
  simp only [word, yields_bind, yields_look]
  split
  · next text token =>
    simp only [yields_bind, yields_accept, yields_pure]
    exact near.name token slot
  · exact yields_failure _ _

/-- A name is found if there is one. -/
theorem yields_tryAnyWord (slot : Slot) (h : c.Read src lo xs) :
    Yields (tryAnyWord slot) c fun n d => d.Read src lo (xs ++ n.toList.map .name) := by
  simp only [tryAnyWord, yields_bind, yields_look]
  split
  · simp only [yields_bind, yields_pure]
    exact (finds_word slot).after h
  · simp only [yields_pure, Option.toList_none, List.map_nil, List.append_nil]
    exact h

end Parse

/-- No `else` follows a statement that ends in an `if` without one. -/
def Parse.Settles (p : Parse Surface.Stmt) : Prop :=
  ∀ c, Yields p c fun s d => s.endsInOpenIf = true → d.lexeme.isWord "else" = false

/-- The reader gives expressions without a comma at their top. -/
def Parse.Single (p : Parse Surface.Expr) : Prop := ∀ c, Yields p c fun e _ => e.isSequence = false

/-- The expression that the reader gives goes from the next token up to where the reader stops. -/
def Parse.Spans (p : Parse Surface.Expr) : Prop :=
  ∀ c, Yields p c fun e d => e.extent = ⟨c.lexeme.start.place, d.place⟩

/-- The readers of a level find what they give back, leave no `else` that belongs to it, pass no comma, and stop where
the expression ends. -/
structure Level.Finds (src : List Symbol) (g : Level) : Prop where
  expr : ∀ k, Parse.Finds src (g.expr k) fun e => [.expr e]
  unary : ∀ k updates, Parse.Finds src (g.unary k updates) fun e => [.expr e]
  callee : ∀ k, Parse.Finds src (g.callee k) fun e => [.expr e]
  braced : ∀ k, Parse.Finds src (g.braced k) fun e => [.expr e]
  element : ∀ slot, Parse.Finds src (g.element slot) fun _ => []
  stmt : ∀ alone, Parse.Finds src (g.stmt alone) fun s => [.stmt s]
  settles : ∀ alone, Parse.Settles (g.stmt alone)
  single_expr : ∀ k, Parse.Single (g.expr k)
  single_unary : ∀ k updates, Parse.Single (g.unary k updates)
  spans_expr : ∀ k, Parse.Spans (g.expr k)
  spans_unary : ∀ k updates, Parse.Spans (g.unary k updates)

end IndexedLoop
