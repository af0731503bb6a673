import IndexedLoop.Surface.Basic

/-!
# Expressions read as patterns

Only the text behind an object literal, an array literal or a list in parentheses says whether it was a
value or a pattern. The grammar reads a value, and here the value is read as what can be assigned to,
bound or declared.
-/

namespace IndexedLoop

namespace Construct

/-- Opaque expressions that can be assigned to. -/
def isPlace (c : Construct) : Bool :=
  c = .memberExpression || c = .subscriptExpression

/-- Patterns that are left of an assignment. -/
def isPattern (c : Construct) : Bool :=
  c = .objectPattern || c = .arrayPattern

end Construct

namespace Surface

mutual

/-- The expression can be assigned to without parentheses. Nested in a pattern it may also have a
default, or be the rest of a list. -/
def Expr.isAssignable (nested : Bool) : Expr → Bool
  | .name _ | .dot .. | .subscript .. => true
  | .object _ members => Member.allAssignable members
  | .array _ elements => Expr.allAssignable elements
  | .assignment _ op target _ => nested && op == .assign && target.isAssignable false
  | .spread _ inner => nested && inner.isAssignable false
  | .other u => u.node.construct.isPlace || u.node.construct.isPattern
  | _ => false

def Expr.allAssignable : List (Option Expr) → Bool
  | [] => true
  | none :: rest => Expr.allAssignable rest
  | some e :: rest => e.isAssignable true && Expr.allAssignable rest

def Member.isAssignable : Member → Bool
  | .pair _ _ value => value.isAssignable true
  | .shorthand _ | .defaulted _ => true
  | .spread _ inner => inner.isAssignable false
  | .method _ => false

def Member.allAssignable : List Member → Bool
  | [] => true
  | m :: rest => m.isAssignable && Member.allAssignable rest

end

mutual

/-- The places in an expression of what may stand in patterns only, and is in order if the expression is
one. -/
def Expr.patternOnly : Expr → List Place
  | .object _ members => Member.patternOnlyAll members
  | .array _ elements => Expr.patternOnlyAll elements
  | .spread _ inner => inner.patternOnly
  | _ => []

def Expr.patternOnlyAll : List (Option Expr) → List Place
  | [] => []
  | none :: rest => Expr.patternOnlyAll rest
  | some e :: rest => e.patternOnly ++ Expr.patternOnlyAll rest

def Member.patternOnlyAll : List Member → List Place
  | [] => []
  | .defaulted e :: rest => e.start :: Member.patternOnlyAll rest
  | .pair e _ (.spread _ inner) :: rest =>
    e.start :: (inner.patternOnly ++ Member.patternOnlyAll rest)
  | .pair _ _ value :: rest => value.patternOnly ++ Member.patternOnlyAll rest
  | .spread _ inner :: rest => inner.patternOnly ++ Member.patternOnlyAll rest
  | _ :: rest => Member.patternOnlyAll rest

end

mutual

/-- The number of patterns in an expression that is read as one. -/
def Expr.patternCount : Expr → Nat
  | .object _ members => 1 + Member.patternCountAll members
  | .array _ elements => 1 + Expr.patternCountAll elements
  | .spread _ inner => inner.patternCount
  | _ => 1

def Expr.patternCountAll : List (Option Expr) → Nat
  | [] => 0
  | none :: rest => Expr.patternCountAll rest
  | some e :: rest => e.patternCount + Expr.patternCountAll rest

def Member.patternCountAll : List Member → Nat
  | [] => 0
  | .pair _ _ value :: rest => value.patternCount + Member.patternCountAll rest
  | _ :: rest => Member.patternCountAll rest

end

namespace Expr

/-- The expression as the left side of `=`. A pattern keeps its extent only. -/
def target? (e : Expr) : Option Expr :=
  match e with
  | .parens .. => some e
  | .object extent _ =>
    if e.isAssignable false then some (.other (.itself extent .objectPattern)) else none
  | .array extent _ =>
    if e.isAssignable false then some (.other (.itself extent .arrayPattern)) else none
  | _ => if e.isAssignable false then some e else none

/-- The expression as the left side of an assignment that also computes. It takes no pattern, and not the
word `undefined`. -/
def updateTarget? (e : Expr) : Option Expr :=
  match e with
  | .name n => if n.text = "undefined" then none else some e
  | .dot .. | .subscript .. | .parens .. => some e
  | .other u => if u.node.construct.isPlace then some e else none
  | _ => none

/-- The expression as a parameter. -/
def param? (e : Expr) : Option Binding :=
  let pattern (construct : Construct) : Option Binding :=
    if e.isAssignable true then some (.pattern ⟨e.extent, construct⟩) else none
  match e with
  | .name n => if n.text = "undefined" then pattern .undefinedName else some (.name n)
  | .assignment .. => pattern .assignmentPattern
  | .spread .. => pattern .restPattern
  | .object .. => pattern .objectPattern
  | .array .. => pattern .arrayPattern
  | .dot .. => pattern .memberExpression
  | .subscript .. => pattern .subscriptExpression
  | .other u => if u.node.construct.isPlace then pattern u.node.construct else none
  | _ => none

/-- The expression as a pattern that a declarator binds. -/
def declared? (e : Expr) : Option Binding :=
  match e with
  | .name n => some (.name n)
  | .object .. | .array .. => e.param?
  | _ => none

end Expr

/-- The entries between commas without the empty one behind a last comma. -/
def withoutTrailing {α : Type} : List (Option α) → List (Option α)
  | [] => []
  | [none] => []
  | x :: rest => x :: withoutTrailing rest

/-- The entries of a list in parentheses as parameters. -/
def params? (entries : List (Option Expr)) : Option (List Binding) :=
  (withoutTrailing entries).mapM fun entry => entry.bind Expr.param?

/-- A literal that is read as a value and as a pattern from its first entry on, and not only from its
end. -/
def Expr.isTwofold : Expr → Bool
  | .array _ elements => !elements.isEmpty
  | .object _ members => !(members matches [] | [.shorthand _])
  | _ => false

/-- The expression is primary: `new` applies to it, and a template behind it calls it. Elements, arrow
functions, `yield`, `new` and updates are not. -/
def Expr.isPrimary : Expr → Bool
  | .new .. | .update .. => false
  | .other u =>
    !([.arrowFunction, .yieldExpression, .markupElement, .markupEmptyElement].contains u.node.construct)
  | _ => true

/-- The keyword `import` by itself, which is no expression. -/
def Expr.isImport : Expr → Bool
  | .other u => u.node.construct = .importKeyword
  | _ => false

end Surface

end IndexedLoop
