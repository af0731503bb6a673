import IndexedLoop.Grammar.List
import IndexedLoop.Surface.Chain
import IndexedLoop.Surface.Pattern

/-!
# What follows an operand

Members, subscripts, templates, calls, `++` and `--` behind an operand, and chains of binary operators.
-/

namespace IndexedLoop.Grammar

open Surface Parse

/-! ## Operators -/

/-- The operator in front of an operand that a token stands for. -/
def unaryOp? : Token → Option UnaryOp
  | .word w => UnaryOp.ofToken? w
  | .punct p => UnaryOp.ofToken? p
  | _ => none

/-- The update in front of an operand that a token stands for. -/
def updateOp? : Token → Option UpdateOp
  | .punct p => UpdateOp.ofToken? p
  | _ => none

/-- The operator between operands that a token stands for. -/
def binaryOp? : Token → Option BinaryOp
  | .word w => BinaryOp.ofToken? w
  | .punct p => BinaryOp.ofToken? p
  | _ => none

/-- The assignment that a token stands for. -/
def assignOp? : Token → Option AssignOp
  | .punct p => AssignOp.ofToken? p
  | _ => none

/-- Reads admitted operators and operands by turns. -/
def chainIn (g : Level) (k : Context) (admits : BinaryOp → Bool) :
    (rounds : List Symbol) → Parse (List (BinaryOp × Expr))
  | [] => failure
  | _ :: n => do
    let l ← look
    match binaryOp? l.token with
    | none => return []
    | some op =>
      if admits op then
        accept l .plain
        let right ← g.unary k.right true
        return (op, right) :: (← chainIn g k admits n)
      else return []

/-- Reads admitted operators and operands behind the first operand. -/
def chainFrom (g : Level) (k : Context) (admits : BinaryOp → Bool) (first : Expr) : Parse Expr := do
  return Chain.resolve first (← rounds (chainIn g k admits))

/-! ## What follows an operand -/

/-- Reads a template behind its opening quote, with the slot behind it. -/
def templateIn (g : Level) (slot : Slot) : (rounds : List Symbol) → Parse Unit
  | [] => failure
  | _ :: n => do
    let c ← get
    match Lexical.templateFrom 0 c.rest with
    | none => failure
    | some (size, .quote) => set ((c.advance size).facing slot)
    | some (size, .substitution) =>
      set ((c.advance size).facing .plain)
      let _ ← enclosed g "\x7d" .plain
      templateIn g slot n

/-- Reads a template behind its opening quote, with the slot behind it. -/
def template (g : Level) (slot : Slot) : Parse Unit :=
  rounds (templateIn g slot)

/-- Reads a member behind its point. -/
def dotTail (k : Context) (object : Expr) : Parse Expr := do
  let start := object.extent.start
  let l ← look
  match l.token with
  | .word text =>
    accept l k.target
    return .dot (← extentFrom start) object ⟨l.extent, text⟩
  | .privateName =>
    accept l k.target
    return .other ⟨⟨← extentFrom start, .memberExpression⟩, ⟨l.extent, .privateName⟩⟩
  | _ => failure

/-- Reads what follows `?.`. Only a primary expression can be called that way, and the keyword `import`
has only members. -/
def optionalTail (g : Level) (k : Context) (object : Expr) : Parse Expr := do
  let start := object.extent.start
  let l ← look
  match l.token with
  | .word _ | .privateName =>
    accept l k.target
    return .other (.itself (← extentFrom start) .memberExpression)
  | .punct "[" =>
    guard !object.isImport
    accept l .plain
    let _ ← enclosed g "]" k.target
    return .other (.itself (← extentFrom start) .subscriptExpression)
  | .punct "(" =>
    guard (object.isPrimary && !object.isImport)
    accept l .plain
    let _ ← arguments g k.operand
    return .other (.itself (← extentFrom start) .callExpression)
  | _ => failure

/-- What an operand may have behind it. -/
structure Reach where
  /-- Calls, `++` and `--`. -/
  calls : Bool
  /-- Of these also `++` and `--`. -/
  updates : Bool
deriving DecidableEq, Repr

namespace Reach

/-- The members behind an operand belong to it. Those behind a `new` that another `new` applies to belong
to the outer one. -/
def members (r : Reach) (e : Expr) : Bool := r.calls || !e matches .new ..

/-- A list of arguments behind an operand calls it. Where calls do not count, only what is not complete
without them is called. -/
def call (r : Reach) (e : Expr) : Bool :=
  r.calls || e.isImport || !(e.isPrimary || e matches .new ..)

/-- An update behind an operand applies to it. -/
def update (r : Reach) (e : Expr) : Bool :=
  if r.calls then r.updates else !(e.isPrimary || e matches .new ..)

/-- A template behind an operand calls it. -/
def template (_ : Reach) (e : Expr) : Bool := e.isPrimary || e matches .new ..

end Reach

/-- Reads members, subscripts, templates, calls, `++` and `--` behind an operand, as far as it reaches. -/
def postfixIn (g : Level) (k : Context) (r : Reach) : (rounds : List Symbol) → Expr → Parse Expr
  | [], _ => failure
  | _ :: n, e => do
    let start := e.extent.start
    let l ← look
    match l.token with
    | .punct "." =>
      if r.members e then
        accept l .plain
        postfixIn g k r n (← dotTail k e)
      else return e
    | .punct "?." =>
      if r.members e then
        accept l .plain
        postfixIn g k r n (← optionalTail g k e)
      else return e
    | .punct "[" =>
      if r.members e then
        guard !e.isImport
        accept l .plain
        let index ← enclosed g "]" k.target
        postfixIn g k r n (.subscript (← extentFrom start) e index)
      else return e
    | .punct "`" =>
      if r.template e then
        guard !e.isImport
        accept l .plain
        template g k.operand
        postfixIn g k r n (.other (.itself (← extentFrom start) .callExpression))
      else return e
    | .punct "(" =>
      if r.call e then
        accept l .plain
        let args ← arguments g k.operand
        postfixIn g k r n (.call (← extentFrom start) e args)
      else return e
    | .punct p =>
      match UpdateOp.ofToken? p with
      | some op =>
        if r.update e then
          accept l k.operand
          postfixIn g k r n (.update (← extentFrom start) op false e)
        else return e
      | none => return e
    | _ => return e

/-- Reads what follows an operand, as far as it reaches. -/
def postfixFrom (g : Level) (k : Context) (r : Reach) (e : Expr) : Parse Expr :=
  rounds fun n => postfixIn g k r n e

/-- What stands behind the operand, which was read in another way too, reads as operators and operands up
to the end of an expression. -/
def readsOn (g : Level) (k : Context) (e : Expr) : Parse Bool := fun c =>
  match (postfixFrom g k ⟨true, true⟩ e >>= chainFrom g k fun _ => true) c with
  | some (_, d) => some (d.lexeme.token.endsExpr, c)
  | none => some (false, c)

/-- Behind an operand that could be a pattern or a list of parameters, `l` comes next only if the text is
read as that. The operand can be read as a value, and what follows goes on with it. -/
def readsOtherwise (g : Level) (k : Context) (l : Lexeme) (e? : Option Expr) : Parse Bool := do
  let next ← look
  match e? with
  | some e => if next.token == l.token || next.token == .inserted then return false else readsOn g k e
  | none => return false

end IndexedLoop.Grammar
