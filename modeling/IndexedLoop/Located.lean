import IndexedLoop.Span

/-!
# Errors with a place

A `Located ε` is a cause `ε` together with the span it concerns, if it concerns one. The cause says
what went wrong and `Located.text` puts the place in front of it. A span that runs backwards cannot
be shown to a reader, so `Located.atSpan` refuses it.
-/

namespace IndexedLoop

/-- A cause of an error that can be put into words. -/
class Message (ε : Type) where
  message : ε → String

export Message (message)

/-- A cause and the place it concerns. -/
structure Located (ε : Type) where
  cause : ε
  span : Option Span
deriving DecidableEq, Repr

/-- The refusal of a span whose start lies behind its end. -/
structure ReversedSpan where
  span : Span
deriving DecidableEq, Repr

namespace Located

variable {ε δ : Type}

/-- A cause that concerns no place in a text. -/
def nowhere (cause : ε) : Located ε := ⟨cause, none⟩

/-- A cause that concerns `span`. -/
def here (cause : ε) (span : Span) : Located ε := ⟨cause, some span⟩

/-- A cause that concerns `span`, refused if the span runs backwards. -/
def atSpan (cause : ε) (span : Span) : Except ReversedSpan (Located ε) :=
  if span.Ordered then .ok (here cause span) else .error ⟨span⟩

/-- The number of marked stretches in a report: one if the error has a place. -/
def labels (e : Located ε) : Nat :=
  if e.span.isSome then 1 else 0

/-- The error can be shown: it has no place, or one whose ends come in order. -/
def shown (e : Located ε) : Bool :=
  match e.span with
  | some span => decide span.Ordered
  | none => true

/-- The same place with another cause. -/
def map (f : ε → δ) (e : Located ε) : Located δ := ⟨f e.cause, e.span⟩

/-- The text of the error, with its place in front if it has one. -/
def text [Message ε] (e : Located ε) : String :=
  match e.span with
  | some span => s!"{span.text}: {message e.cause}"
  | none => message e.cause

@[simp]
theorem labels_map (f : ε → δ) (e : Located ε) : (e.map f).labels = e.labels := rfl

@[simp]
theorem shown_map (f : ε → δ) (e : Located ε) : (e.map f).shown = e.shown := rfl

end Located

end IndexedLoop
