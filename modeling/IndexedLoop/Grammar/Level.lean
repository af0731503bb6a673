import IndexedLoop.Grammar.Parse

/-!
# Levels of nesting

The readers of nested expressions and statements come from a `Level`; each use of one follows a token, so
the levels that a source needs are bounded by its length. A `Context` says where an expression stands,
and so what may stand behind its operands.
-/

namespace IndexedLoop

open Surface

/-- Where an expression stands. -/
structure Context where
  /-- A statement may end behind the expression. -/
  ends : Bool
  /-- The expression starts the header of a loop, so the word `of` may follow its first operand. -/
  header : Bool
  /-- The word `of` may follow the expression. -/
  beforeOf : Bool
deriving DecidableEq, Inhabited, Repr

namespace Context

/-- Between brackets, or in another place where no statement ends. -/
def inner : Context := ⟨false, false, false⟩

/-- At the end of a statement. -/
def statement : Context := ⟨true, false, false⟩

/-- At the start of the header of a loop. -/
def loopHeader : Context := ⟨false, true, false⟩

/-- The place of what follows the first operand. -/
def right (k : Context) : Context := { k with header := false }

/-- The slot behind an operand. -/
def operand (k : Context) : Slot := ⟨k.ends, true, k.beforeOf⟩

/-- The slot behind an operand that could be the variable of a loop. -/
def target (k : Context) : Slot := ⟨k.ends, true, k.header || k.beforeOf⟩

/-- The slot behind a word that may be an operand or the start of something longer. -/
def keyword (k : Context) : Slot := ⟨k.ends, true, true⟩

end Context

/-- The readers of what is nested in a piece of a source. -/
structure Level where
  /-- An expression without a comma at its top. -/
  expr : Context → Parse Expr
  /-- An operand with the operators in front of it; behind it stand `++` and `--` only with `updates`. -/
  unary : Context → (updates : Bool) → Parse Expr
  /-- What `new` applies to. -/
  callee : Context → Parse Expr
  /-- An expression that starts with an object literal where a block could stand. -/
  braced : Context → Parse Expr
  /-- An element of markup, with the slot behind it. -/
  element : Slot → Parse Construct
  /-- A statement. With `alone` it is the body of a loop that tests behind it, so no statement follows. -/
  stmt : (alone : Bool) → Parse Stmt

namespace Level

/-- The level at which nothing can be read. -/
def empty : Level := ⟨fun _ => failure, fun _ _ => failure, fun _ => failure, fun _ => failure,
  fun _ => failure, fun _ => failure⟩

end Level

end IndexedLoop
