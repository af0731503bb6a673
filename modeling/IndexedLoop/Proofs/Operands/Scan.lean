import IndexedLoop.Grammar.Operand

/-!
# Tokens and brackets of a text

`Scan.items?` reads a text token by token and follows its brackets. It knows nothing of trees. Whether a slash
divides or starts a regular expression depends on what comes before it, so the reader keeps a `Phase`, and for each
open bracket the phase behind it: behind the parentheses of an `if` a statement starts, behind those of a call an
operand is complete. A bracket that closes another than the last open one, or that is never closed, leaves the text
without a reading.

An `Item` is a token with the phase in which it is read, which tells a sign from an operator between operands, and
with the number of brackets around it. A bracket itself stands outside of what it encloses.
-/

namespace IndexedLoop.Scan

/-- What a text goes on with. -/
inductive Phase where
  /-- With a statement, which may be an expression. -/
  | statement
  /-- With an operand. -/
  | operand
  /-- With an operator: the operand before it is complete. -/
  | operator
  /-- With the name of a property, behind a point. -/
  | member
  /-- With the parentheses behind `if`, `for` or `while`. -/
  | head
  /-- With the name or the parameters of a function, which may be a statement of its own. -/
  | heading (declares : Bool)
  /-- With the body of a function. -/
  | body (declares : Bool)
deriving DecidableEq, Repr

/-- The words in front of parentheses with a statement behind them. -/
def headWords : List String := ["if", "for", "while"]

/-- The words in front of an operand. -/
def openingWords : List String :=
  ["new", "typeof", "void", "delete", "in", "instanceof", "return", "throw", "var", "const"]

/-- The words that are no operands, and in front of no operator. -/
def steeringWords : List String := ["function", "else"] ++ headWords ++ openingWords

namespace Phase

/-- An operand may start here. -/
def starts : Phase → Bool
  | .statement | .operand => true
  | _ => false

/-- What stands behind a word. Behind a point, and as the name of a function, any word is a name. -/
def afterWord (w : String) : Phase → Phase
  | .member => .operator
  | .heading declares => .heading declares
  | phase =>
    if w = "function" then .heading (phase = .statement)
    else if w = "else" then .statement
    else if w ∈ headWords then .head
    else if w ∈ openingWords then .operand
    else .operator

end Phase

/-- An open bracket: what closes it, and what stands behind that. -/
structure Bracket where
  close : String
  behind : Phase
deriving DecidableEq, Repr

/-- The bracket that a token opens, and what it starts with. -/
def opens? : Phase → String → Option (Bracket × Phase)
  | .head, "(" => some (⟨")", .statement⟩, .operand)
  | .heading declares, "(" => some (⟨")", .body declares⟩, .operand)
  | _, "(" => some (⟨")", .operator⟩, .operand)
  | _, "[" => some (⟨"]", .operator⟩, .operand)
  | .statement, "\x7b" => some (⟨"\x7d", .statement⟩, .statement)
  | .body declares, "\x7b" => some (⟨"\x7d", if declares then .statement else .operator⟩, .statement)
  | _, "\x7b" => some (⟨"\x7d", .operator⟩, .operand)
  | _, _ => none

/-- What the text goes on with, inside of which brackets, the innermost one first. -/
structure State where
  phase : Phase
  brackets : List Bracket
deriving DecidableEq, Repr

/-- A token, or a regular expression, which is none of them. -/
inductive Glyph where
  | token (token : Token)
  | regExp
deriving DecidableEq, Repr

namespace State

/-- What stands behind a punctuation token that is no bracket. A semicolon ends a statement, but not in the head of
a loop. -/
def afterPunct (st : State) (p : String) : Phase :=
  if p = "." ∨ p = "?." then .member
  else if p = "++" ∨ p = "--" then if st.phase = .operator then .operator else .operand
  else if p = ";" then if st.brackets.head?.all (·.close == "\x7d") then .statement else .operand
  else .operand

/-- The state behind a token, with the number of brackets around the token. -/
def next (st : State) : Glyph → Option (Nat × State)
  | .regExp | .token (.number _) | .token (.string _) =>
    some (st.brackets.length, { st with phase := .operator })
  | .token (.word w) => some (st.brackets.length, { st with phase := st.phase.afterWord w })
  | .token (.punct p) =>
    match opens? st.phase p with
    | some (bracket, inside) => some (st.brackets.length, ⟨inside, bracket :: st.brackets⟩)
    | none =>
      if p ∈ [")", "]", "\x7d"] then
        match st.brackets with
        | bracket :: around => if bracket.close = p then some (around.length, ⟨bracket.behind, around⟩) else none
        | [] => none
      else some (st.brackets.length, { st with phase := st.afterPunct p })
  | .token _ => none

end State

/-- The token at the start of a text, with its length. -/
def glyph? (phase : Phase) (s : List Symbol) : Option (Glyph × Nat) :=
  if phase.starts && Lexical.startsWith ['/'] s then
    (Lexical.regex? s).map fun n => (.regExp, n + Lexical.regexFlags (s.drop n))
  else if Lexical.asksAt s then some (.token (.punct "?"), 1)
  else
    let (token, n) := Token.read .plain s
    some (.token token, n)

/-- A token that was read. -/
structure Item where
  glyph : Glyph
  /-- What the text went on with. -/
  phase : Phase
  /-- The number of brackets around the token. -/
  depth : Nat
deriving DecidableEq, Repr

/-- The tokens from a state on, if all brackets are closed at the end. -/
def itemsFrom : (skip : Nat) → State → List Symbol → Option (List Item)
  | _, st, [] => if st.brackets.isEmpty then some [] else none
  | skip + 1, st, _ :: rest => itemsFrom skip st rest
  | 0, st, x :: rest =>
    if x.satisfies Lexical.isBlank then itemsFrom 0 st rest
    else
      match Lexical.comment? (x :: rest) with
      | some (n + 1) => itemsFrom n st rest
      | _ =>
        match glyph? st.phase (x :: rest) with
        | some (glyph, n + 1) =>
          match st.next glyph with
          | some (depth, behind) => (itemsFrom n behind rest).map (⟨glyph, st.phase, depth⟩ :: ·)
          | none => none
        | _ => none

/-- The tokens of an expression, if all its brackets are closed by their like. -/
def items? (text : String) : Option (List Item) :=
  itemsFrom 0 ⟨.operand, []⟩ (Symbol.ofString text)

/-! ## Kinds of tokens -/

namespace Item

/-- The token, if it is no regular expression. -/
def token? (i : Item) : Option Token :=
  match i.glyph with
  | .token token => some token
  | .regExp => none

def isComma (i : Item) : Bool := i.token? == some (.punct ",")

def isAsk (i : Item) : Bool := i.token? == some (.punct "?")

/-- The token opens a parenthesis. -/
def isParen (i : Item) : Bool := i.token? == some (.punct "(")

def isNumber (i : Item) : Bool := i.token? matches some (.number _)

def isAssign (i : Item) : Bool := (i.token?.bind Grammar.assignOp?).isSome

def isUpdate (i : Item) : Bool := (i.token?.bind Grammar.updateOp?).isSome

/-- The token is an operator in front of its operand. -/
def isSign (i : Item) : Bool := (i.token?.bind Grammar.unaryOp?).isSome && i.phase.starts

/-- The token is an operator between two operands. -/
def isBetween (i : Item) : Bool := (i.token?.bind Grammar.binaryOp?).isSome && i.phase == .operator

/-- How loosely a token binds what stands on both sides of it: a comma more loosely than an operator between operands,
and that more loosely than one in front of or behind its operand. -/
def looseness (i : Item) : Nat :=
  if i.isComma then 4
  else if i.isAssign || i.isAsk || i.isBetween then 3
  else if i.isSign || i.isUpdate || i.isNumber then 2
  else if i.isParen then 1
  else 0

end Item

-- a slash behind an operand divides, and a bracket of a regular expression is none
example : (items? "a / b, /(,/g").map (·.map fun i => (i.looseness, i.depth)) =
    some [(0, 0), (3, 0), (0, 0), (4, 0), (0, 0)] := by decide +kernel

example : (items? "(a]").isSome = false ∧ (items? "(a").isSome = false ∧ (items? "a)").isSome = false := by
  decide +kernel

/-! ## Reading on -/

/-- From a state and a text the reader gets to another state and the rest of the text, and finds some tokens. -/
def Reads (st : State) (s : List Symbol) (items : List Item) (behind : State) (rest : List Symbol) : Prop :=
  itemsFrom 0 st s = (itemsFrom 0 behind rest).map (items ++ ·)

variable {st mid behind : State} {s t rest : List Symbol} {items more : List Item}

theorem Reads.refl : Reads st s [] st s := by
  simp [Reads]

theorem Reads.trans (h : Reads st s items mid t) (h' : Reads mid t more behind rest) :
    Reads st s (items ++ more) behind rest := by
  unfold Reads at h h' ⊢
  rw [h, h', Option.map_map]
  simp only [Function.comp_def, List.append_assoc]

theorem itemsFrom_skip (st : State) (xs rest : List Symbol) :
    itemsFrom xs.length st (xs ++ rest) = itemsFrom 0 st rest := by
  induction xs with
  | nil => rfl
  | cons x xs ih => simpa only [List.length_cons, List.cons_append, itemsFrom] using ih

theorem reads_blank {c : Char} (blank : Lexical.isBlank c = true) : Reads st (.char c :: rest) [] st rest := by
  simp [Reads, itemsFrom, Symbol.satisfies, blank]

/-- A token is read, with what it does to the state. -/
theorem reads_glyph {x : Symbol} {glyph : Glyph} {depth : Nat} (solid : x.satisfies Lexical.isBlank = false)
    (comment : Lexical.comment? (x :: (s ++ rest)) = none)
    (read : glyph? st.phase (x :: (s ++ rest)) = some (glyph, s.length + 1))
    (next : st.next glyph = some (depth, behind)) :
    Reads st (x :: (s ++ rest)) [⟨glyph, st.phase, depth⟩] behind rest := by
  rw [Reads, itemsFrom, solid, comment, read]
  simp only [Bool.false_eq_true, ↓reduceIte, next, itemsFrom_skip, List.cons_append, List.nil_append]

end IndexedLoop.Scan
