import IndexedLoop.Grammar.Loop
import IndexedLoop.Grammar.Module

/-!
# The grammar of statements

The first token of a statement tells its kind. A word is a keyword only where the keyword may stand, so
a statement that starts with `let`, `async` or `export` may still be an expression. A statement that
starts with a brace is a block or an object literal. If both can be read, the reading with more weight
counts, and the object literal if they weigh the same.
-/

namespace IndexedLoop.Grammar

open Surface Parse

/-! ## Expressions -/

/-- Reads the rest of an expression statement behind its first expression. -/
def expressionStatementFrom (g : Level) (first : Expr) : Parse Stmt := do
  let e ← sequenceFrom g .statement first
  let closed := (← look).isPunct ";"
  semicolon
  return .expression (← extentFrom e.extent.start) closed e

/-- Reads an expression as a statement. -/
def expressionStatement (g : Level) : Parse Stmt := do
  expressionStatementFrom g (← expr g .statement)

/-- Reads the rest of an expression statement behind its first operand. -/
def operandStatement (g : Level) (first : Expr) : Parse Stmt := do
  expressionStatementFrom g (← exprFrom g .statement first)

/-! ## Braces -/

/-- The first operand of an expression. -/
def leading : Expr → Expr
  | .assignment _ _ target _ => leading target
  | .binary _ _ left _ => leading left
  | .update _ _ false argument => leading argument
  | .sequence _ (first :: _) => leading first
  | .conditional _ test _ _ => leading test
  | .call _ callee _ => leading callee
  | .dot _ object _ => leading object
  | .subscript _ object _ => leading object
  | e => e

/-- The statement starts with a brace. -/
def startsWithBrace : Stmt → Bool
  | .block _ => true
  | .expression _ _ e =>
    match leading e with
    | .object .. => true
    | .other u => u.node.construct = .objectPattern
    | _ => false
  | _ => false

/-- The statement is a block that looks like an object literal with a method: an expression without a
semicolon behind it, and then a brace. -/
def looksLikeMethod : Stmt → Bool
  | .block (.mk _ (.expression _ false _ :: second :: _)) => startsWithBrace second
  | _ => false

/-- The brace that was looked at has a word behind it that a star can make a modifier. -/
def opensWithStar (l : Lexeme) : Bool :=
  let first := l.next .plain
  (first.isWord "async" || first.isWord "static") && (first.next .wide).isPunct "*"

/-- Reads a block as a statement. What stands behind an empty one may tell that it is an object
literal, and behind no block stands an operator that cannot start a statement. -/
def blockStatement (g : Level) (alone : Bool) : Parse Stmt := do
  let b ← blockWith g (fun isEmpty => if isEmpty then .wide else .ending) .plain
  let next ← look
  match b with
  | .mk extent [] =>
    if (← get).slot.joins && (next.token.continuesOperand alone || next.isPunct "=") then
      operandStatement g (.object extent [])
    else return .block b
  | b =>
    guard !((next.token matches .punct _) && next.token.continuesOperand false)
    guard !next.isPunct "="
    return .block b

/-- Reads a statement that starts with an object literal. -/
def objectStatement (g : Level) : Parse Stmt := do
  expressionStatementFrom g (← braced g .statement)

/-- The object literal that starts here can be taken for one, even if it could be a block of the same
weight. If its first word is `async` and it ends at a line, it has to end the source too. -/
def tiesGoToObject (g : Level) (l : Lexeme) : Parse Bool := fun c =>
  match objectHead g .statement c with
  | none => some (false, c)
  | some (_, d) =>
    let next := d.lexeme
    let behind := if next.token == .inserted then next.next .plain else next
    let first := l.next .plain
    let isCall := first.isWord "async" && (first.next .wide).isPunct "("
    some (!isCall || next.token != .inserted || behind.token == .finish, c)

/-- Reads a statement that starts with a brace. -/
def braceStatement (g : Level) (alone : Bool) (l : Lexeme) : Parse Stmt :=
  let block := blockStatement g alone
  let object := objectStatement g
  match braceForm l with
  | .block => block
  | .object => object
  | .pair =>
    contest object block (fun c _ d => c.losses + 1 < d.losses)
      (compareWeights block (objectHead g .statement) fun b o => o < b)
  | .unclear =>
    contest block object (fun _ s _ => looksLikeMethod s || opensWithStar l) do
      if ← compareWeights block (objectHead g .statement) fun b o => b ≤ o then tiesGoToObject g l
      else return false

/-! ## Branches -/

/-- Reads an `if` behind its keyword. -/
def ifStatement (g : Level) (alone : Bool) (start : Place) : Parse Stmt := do
  let test ← condition g
  let consequent ← g.stmt alone
  let alternate ←
    if ← tryWord "else" .plain then do
      pure (some (← g.stmt alone))
    else pure none
  return .ifElse (← extentFrom start) test consequent alternate

/-- Reads the statements of a case up to the next one or the closing brace. -/
def caseBodyIn (g : Level) : (rounds : List Symbol) → Parse Unit
  | [] => failure
  | _ :: n => do
    let l ← look
    unless l.isPunct "\x7d" || l.isWord "case" || l.isWord "default" do
      let _ ← g.stmt false
      caseBodyIn g n

/-- Reads the cases of a switch up to the closing brace. -/
def casesIn (g : Level) : (rounds : List Symbol) → Parse Unit
  | [] => failure
  | _ :: n => do
    let l ← look
    accept l .plain
    unless l.isPunct "\x7d" do
      if l.isWord "case" then
        let _ ← enclosed g ":" .plain
      else
        guard (l.isWord "default")
        expect ":" .plain
      rounds (caseBodyIn g)
      casesIn g n

/-- Reads a switch behind its keyword. -/
def switchStatement (g : Level) (start : Place) : Parse Stmt := do
  let _ ← condition g
  expect "\x7b" .plain
  rounds (casesIn g)
  return .other ⟨← extentFrom start, .switchStatement⟩

/-- Reads a `try` behind its keyword. Both clauses may be left out. -/
def tryStatement (g : Level) (start : Place) : Parse Stmt := do
  let _ ← block g .plain
  if ← tryWord "catch" .plain then
    if ← tryPunct "(" .plain then
      let _ ← binding g .plain
      expect ")" .plain
    let _ ← block g .plain
  if ← tryWord "finally" .plain then
    let _ ← block g .plain
  return .other ⟨← extentFrom start, .tryStatement⟩

/-- Reads a `with` behind its keyword. -/
def withStatement (g : Level) (alone : Bool) (start : Place) : Parse Stmt := do
  let _ ← condition g
  let _ ← g.stmt alone
  return .other ⟨← extentFrom start, .withStatement⟩

/-! ## Jumps -/

/-- Reads a `return` behind its keyword. -/
def returnStatement (g : Level) (start : Place) : Parse Stmt := do
  let l ← look
  if l.isPunct ";" || l.token == .inserted then
    accept l .plain
    return .ret (← extentFrom start) none
  else
    let e ← expressions g .statement
    semicolon
    return .ret (← extentFrom start) (some e)

/-- Reads a `throw` behind its keyword. -/
def throwStatement (g : Level) (start : Place) : Parse Stmt := do
  let e ← expressions g .statement
  semicolon
  return .throw (← extentFrom start) e

/-- Reads the rest of a jump, and whether it has a label. -/
def jumpTail : Parse Bool := do
  let label ← tryAnyWord .ending
  semicolon
  return label.isSome

/-- Reads a `break` behind its keyword. -/
def breakStatement (start : Place) : Parse Stmt := do
  let labelled ← jumpTail
  let extent ← extentFrom start
  return if labelled then .other ⟨extent, .breakStatement⟩ else .brk extent

/-- Reads a `continue` behind its keyword. -/
def continueStatement (start : Place) : Parse Stmt := do
  let labelled ← jumpTail
  let extent ← extentFrom start
  return if labelled then .other ⟨extent, .continueStatement⟩ else .cont extent

/-- Reads a `debugger` behind its keyword. -/
def debuggerStatement (start : Place) : Parse Stmt := do
  semicolon
  return .other ⟨← extentFrom start, .debuggerStatement⟩

/-! ## Statements -/

/-- Reads the statement whose keyword was looked at. -/
def keywordStatement? (g : Level) (alone : Bool) (l : Lexeme) : Option (Parse Stmt) :=
  let start := l.start.place
  let behind (slot : Slot) (tail : Parse Stmt) : Option (Parse Stmt) :=
    some do
      accept l slot
      tail
  match l.token with
  | .word "if" => behind .plain (ifStatement g alone start)
  | .word "for" => behind .plain (forStatement g alone start)
  | .word "while" => behind .plain (whileStatement g alone start)
  | .word "do" => behind .plain (doStatement g start)
  | .word "switch" => behind .plain (switchStatement g start)
  | .word "try" => behind .plain (tryStatement g start)
  | .word "with" => behind .plain (withStatement g alone start)
  | .word "return" => behind .ending (returnStatement g start)
  | .word "throw" => behind .plain (throwStatement g start)
  | .word "break" => behind .ending (breakStatement start)
  | .word "continue" => behind .ending (continueStatement start)
  | .word "debugger" => behind .ending (debuggerStatement start)
  | _ => none

/-- The word that was looked at is a label. -/
def isLabel (l : Lexeme) (w : String) : Bool :=
  let slot := if softKeywords.contains w then .wide else Context.statement.operand
  !l.token.isStatementKeyword && (l.next slot).isPunct ":"

/-- Reads a labelled statement, whose label was looked at. -/
def labelledStatement (g : Level) (alone : Bool) (l : Lexeme) : Parse Stmt := do
  accept l .plain
  expect ":" .plain
  lose 1
  let _ ← g.stmt alone
  return .other ⟨← extentFrom l.start.place, .labeledStatement⟩

/-- Reads a function or a class with a name, whose first token behind decorators was looked at. -/
def definitionStatement (g : Level) (alone : Bool) (start : Place) (l : Lexeme) : Parse Stmt := do
  let d ← definition g start l .wide .wide
  if ← goesOn alone then operandStatement g (← d.toOperand) else d.declare

/-- Reads a statement that starts with a decorator. -/
def decoratedStatement (g : Level) (alone : Bool) (start : Place) : Parse Stmt := do
  let _ ← decorators g
  let l ← look
  if l.isWord "export" then
    accept l .plain
    exportStatement g start true
  else if namesClass l then definitionStatement g alone start l
  else
    guard (l.isWord "class")
    accept l .plain
    operandStatement g (← classExpr g .statement start)

/-- Reads a statement that starts with a word other than the keywords above. -/
def wordStatement (g : Level) (alone : Bool) (l : Lexeme) (w : String) : Parse Stmt := do
  let start := l.start.place
  if isLabel l w then labelledStatement g alone l
  else if startsImport l then
    accept l .plain
    importStatement g start
  else if startsExport l then
    accept l .wide
    exportStatement g start false
  else if startsDefinition l .wide then definitionStatement g alone start l
  else
    match declarationKind? l .wide with
    | some kind =>
      accept l .plain
      return .declaration (← declarationTail g start kind)
    | none => expressionStatement g

/-- Reads a statement. With `alone` no statement follows it. -/
def statement (g : Level) (alone : Bool) : Parse Stmt := do
  let l ← look
  match l.token with
  | .punct "\x7b" => braceStatement g alone l
  | .punct ";" =>
    accept l .plain
    return .empty l.extent
  | .punct "@" => decoratedStatement g alone l.start.place
  | .word w => (keywordStatement? g alone l).getD (wordStatement g alone l w)
  | _ => expressionStatement g

end IndexedLoop.Grammar
