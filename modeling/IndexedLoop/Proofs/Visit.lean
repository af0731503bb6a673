import IndexedLoop.Proofs.TreeInduction
import Mathlib.Data.List.Basic

/-!
# A visit meets every name

`Program.Mentions` says where in a program a name can occur: as a reference, as the name of a variable, of
a function or of a parameter, as a property behind a dot, and as a key of an object, at any depth. The
names that a visit meets are these and no others (`mem_names_iff`).
-/

namespace IndexedLoop

/-! ## Where a name occurs -/

mutual

/-- The name occurs in the expression, as a reference, as the name of a property or of a function, as
a parameter or a variable, at any depth. -/
def Expr.Mentions (x : String) : Expr → Prop
  | .assignment _ _ left right | .binary _ _ left right => left.Mentions x ∨ right.Mentions x
  | .unary _ _ argument | .update _ _ _ argument => argument.Mentions x
  | .sequence _ expressions => MentionedInExprs x expressions
  | .function ⟨_, id, params, body⟩ =>
    (∃ i ∈ id, i.name = x) ∨ MentionedInExprs x params ∨ body.Mentions x
  | .call _ callee arguments | .new _ callee arguments =>
    callee.Mentions x ∨ MentionedInExprs x arguments
  | .conditional _ test consequent alternate =>
    test.Mentions x ∨ consequent.Mentions x ∨ alternate.Mentions x
  | .member _ object property _ => object.Mentions x ∨ property.Mentions x
  | .object _ properties => MentionedInProperties x properties
  | .array _ elements => MentionedInElements x elements
  | .identifier id => id.name = x
  | .this _ | .literal _ | .unknown _ => False

def MentionedInExprs (x : String) : List Expr → Prop
  | [] => False
  | e :: rest => e.Mentions x ∨ MentionedInExprs x rest

def MentionedInElements (x : String) : List (Option Expr) → Prop
  | [] => False
  | none :: rest => MentionedInElements x rest
  | some e :: rest => e.Mentions x ∨ MentionedInElements x rest

def MentionedInProperties (x : String) : List Property → Prop
  | [] => False
  | ⟨_, key, value⟩ :: rest => key.Mentions x ∨ value.Mentions x ∨ MentionedInProperties x rest

def Block.Mentions (x : String) : Block → Prop
  | ⟨_, body⟩ => MentionedInStmts x body

def MentionedInStmts (x : String) : List Stmt → Prop
  | [] => False
  | s :: rest => s.Mentions x ∨ MentionedInStmts x rest

def Declaration.Mentions (x : String) : Declaration → Prop
  | ⟨_, _, declarators⟩ => MentionedInDeclarators x declarators

def MentionedInDeclarators (x : String) : List Declarator → Prop
  | [] => False
  | ⟨_, id, init⟩ :: rest => id.name = x ∨ MentionedInOption x init ∨ MentionedInDeclarators x rest

def MentionedInOption (x : String) : Option Expr → Prop
  | none => False
  | some e => e.Mentions x

def MentionedInForInit (x : String) : Option ForInit → Prop
  | none => False
  | some (.declaration decl) => decl.Mentions x
  | some (.expression e) => e.Mentions x

/-- The name occurs in the statement, at any depth. -/
def Stmt.Mentions (x : String) : Stmt → Prop
  | .declaration decl => decl.Mentions x
  | .functionDecl ⟨_, id, params, body⟩ =>
    id.name = x ∨ MentionedInExprs x params ∨ body.Mentions x
  | .block b => b.Mentions x
  | .ret _ argument => MentionedInOption x argument
  | .forLoop ⟨_, init, test, update, body⟩ =>
    MentionedInForInit x init ∨ MentionedInOption x test ∨ MentionedInOption x update ∨
      body.Mentions x
  | .whileLoop ⟨_, test, body⟩ => test.Mentions x ∨ body.Mentions x
  | .ifElse ⟨_, test, consequent, none⟩ => test.Mentions x ∨ consequent.Mentions x
  | .ifElse ⟨_, test, consequent, some alternate⟩ =>
    test.Mentions x ∨ consequent.Mentions x ∨ alternate.Mentions x
  | .throw _ argument => argument.Mentions x
  | .expression _ expr => expr.Mentions x
  | .brk _ | .cont _ | .empty _ | .unknown _ => False

end

/-- The name occurs in the program. -/
def Program.Mentions (x : String) (program : Program) : Prop := MentionedInStmts x program.body

/-! ## What a visit meets -/

/-- A visit meets the name. -/
def Meets (x : String) (events : List Event) : Prop := ∃ id, Event.identifier id ∈ events ∧ id.name = x

@[simp]
theorem meets_nil (x : String) : ¬ Meets x [] := by simp [Meets]

@[simp]
theorem meets_append (x : String) (es fs : List Event) :
    Meets x (es ++ fs) ↔ Meets x es ∨ Meets x fs := by
  simp only [Meets, List.mem_append]
  grind

@[simp]
theorem meets_identifier (x : String) (id : Identifier) (es : List Event) :
    Meets x (.identifier id :: es) ↔ id.name = x ∨ Meets x es := by
  simp only [Meets, List.mem_cons]
  grind

@[simp]
theorem meets_identifiers (x : String) (id : Option Identifier) :
    Meets x (id.toList.map .identifier) ↔ ∃ i ∈ id, i.name = x := by
  cases id <;> simp [Meets]

/-- Only the identifiers of a visit are names. -/
theorem meets_other {x : String} {event : Event} (h : ∀ id, event ≠ .identifier id)
    (es : List Event) : Meets x (event :: es) ↔ Meets x es := by
  simp only [Meets, List.mem_cons]
  grind

theorem meets_events (x : String) : TreeLaw.Holds
    { expr e := Meets x e.events ↔ e.Mentions x
      exprs es := Meets x (eventsOfExprs es) ↔ MentionedInExprs x es
      elements es := Meets x (eventsOfElements es) ↔ MentionedInElements x es
      properties ps := Meets x (eventsOfProperties ps) ↔ MentionedInProperties x ps
      block b := Meets x b.events ↔ b.Mentions x
      stmts ss := Meets x (eventsOfStmts ss) ↔ MentionedInStmts x ss
      declaration d := Meets x d.events ↔ d.Mentions x
      declarators ds := Meets x (eventsOfDeclarators ds) ↔ MentionedInDeclarators x ds
      option e := Meets x (eventsOfOption e) ↔ MentionedInOption x e
      forInit init := Meets x (eventsOfForInit init) ↔ MentionedInForInit x init
      stmt s := Meets x s.events ↔ s.Mentions x } := by
  refine TreeLaw.Closed.holds ?_
  constructor
  all_goals
    dsimp only
    intros
    simp [Expr.events, Expr.Mentions, eventsOfExprs, MentionedInExprs, eventsOfElements, MentionedInElements,
      eventsOfProperties, MentionedInProperties, Block.events, Block.Mentions, eventsOfStmts, MentionedInStmts,
      Declaration.events, Declaration.Mentions, eventsOfDeclarators, MentionedInDeclarators, eventsOfOption,
      MentionedInOption, eventsOfForInit, MentionedInForInit, Stmt.events, Stmt.Mentions, meets_other, *]

theorem meets_eventsOfStmts (x : String) (ss : List Stmt) : Meets x (eventsOfStmts ss) ↔ MentionedInStmts x ss :=
  (meets_events x).stmts ss

theorem meets_eventsOfForInit (x : String) (init : Option ForInit) :
    Meets x (eventsOfForInit init) ↔ MentionedInForInit x init :=
  (meets_events x).forInit init

/-- A visit misses no name: the names it meets are those that occur. -/
theorem mem_names_iff (program : Program) (x : String) : x ∈ program.names ↔ program.Mentions x := by
  rw [Program.Mentions, ← meets_eventsOfStmts]
  simp only [Program.names, Program.events, List.mem_filterMap, Meets]
  grind

end IndexedLoop
