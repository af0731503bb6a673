import IndexedLoop.Tree.Event
import Mathlib

/-!
# Subtrees

Every piece of a tree that has a span of its own is a subtree. It has the subtrees right below it as children,
in the order of a visit: what a visit meets in a subtree is the subtree itself, and then what it meets in the
children (`Subtree.events_eq`).
-/

namespace IndexedLoop

/-- A piece of a tree that has a span of its own. -/
inductive Subtree where
  | program (program : Program)
  | stmt (stmt : Stmt)
  | block (block : Block)
  | declaration (decl : Declaration)
  | declarator (declarator : Declarator)
  | expr (expr : Expr)
  | property (property : Property)
  | identifier (id : Identifier)

/-- The first part of the head of a loop as a subtree. -/
def ForInit.subtree : ForInit → Subtree
  | .declaration decl => .declaration decl
  | .expression expr => .expr expr

/-- The span of what a visit meets. -/
def Event.span : Event → Span
  | .program p => p.span
  | .stmt s => s.span
  | .block b => b.span
  | .declaration d => d.span
  | .declarator v => v.span
  | .functionDecl fn => fn.span
  | .forLoop loop => loop.span
  | .whileLoop loop => loop.span
  | .ifElse branch => branch.span
  | .function fn => fn.span
  | .expr e => e.span
  | .identifier id => id.span

namespace Subtree

def span : Subtree → Span
  | .program p => p.span
  | .stmt s => s.span
  | .block b => b.span
  | .declaration d => d.span
  | .declarator v => v.span
  | .expr e => e.span
  | .property p => p.span
  | .identifier id => id.span

/-- The subtrees right below an expression. -/
def ofExpr : Expr → List Subtree
  | .assignment _ _ left right | .binary _ _ left right | .member _ left right _ => [.expr left, .expr right]
  | .unary _ _ argument | .update _ _ _ argument => [.expr argument]
  | .sequence _ expressions => expressions.map .expr
  | .function fn => fn.id.toList.map .identifier ++ fn.params.map .expr ++ [.block fn.body]
  | .call _ callee arguments | .new _ callee arguments => .expr callee :: arguments.map .expr
  | .conditional _ test consequent alternate => [.expr test, .expr consequent, .expr alternate]
  | .object _ properties => properties.map .property
  | .array _ elements => elements.reduceOption.map .expr
  | .identifier id => [.identifier id]
  | .this _ | .literal _ | .unknown _ => []

/-- The subtrees right below a statement. -/
def ofStmt : Stmt → List Subtree
  | .declaration d => [.declaration d]
  | .functionDecl fn => .identifier fn.id :: fn.params.map .expr ++ [.block fn.body]
  | .block b => [.block b]
  | .ret _ argument => argument.toList.map .expr
  | .forLoop loop =>
    loop.init.toList.map ForInit.subtree ++ loop.test.toList.map .expr ++ loop.update.toList.map .expr
      ++ [.stmt loop.body]
  | .whileLoop loop => [.expr loop.test, .stmt loop.body]
  | .ifElse branch => [.expr branch.test, .stmt branch.consequent] ++ branch.alternate.toList.map .stmt
  | .throw _ e | .expression _ e => [.expr e]
  | .brk _ | .cont _ | .empty _ | .unknown _ => []

/-- The subtrees right below a subtree. -/
def children : Subtree → List Subtree
  | .program p => p.body.map .stmt
  | .stmt s => ofStmt s
  | .block b => b.body.map .stmt
  | .declaration d => d.declarators.map .declarator
  | .declarator v => .identifier v.id :: v.init.toList.map .expr
  | .expr e => ofExpr e
  | .property p => [.expr p.key, .expr p.value]
  | .identifier _ => []

/-- The subtree is a tree or lies below it. -/
def Within (tree : Subtree) : Subtree → Prop :=
  Relation.ReflTransGen (fun parent child => child ∈ parent.children) tree

/-! ## Visits -/

/-- What a visit meets in a subtree. -/
def events : Subtree → List Event
  | .program p => p.events
  | .stmt s => s.events
  | .block b => b.events
  | .declaration d => d.events
  | .declarator v => eventsOfDeclarators [v]
  | .expr e => e.events
  | .property p => eventsOfProperties [p]
  | .identifier id => [.identifier id]

/-- A statement as a visit meets it. -/
def visitsOfStmt : Stmt → List Event
  | .functionDecl fn => [.stmt (.functionDecl fn), .functionDecl fn]
  | .forLoop loop => [.stmt (.forLoop loop), .forLoop loop]
  | .whileLoop loop => [.stmt (.whileLoop loop), .whileLoop loop]
  | .ifElse branch => [.stmt (.ifElse branch), .ifElse branch]
  | s => [.stmt s]

/-- A subtree as a visit meets it, without what lies below it. -/
def visits : Subtree → List Event
  | .program p => [.program p]
  | .stmt s => visitsOfStmt s
  | .block b => [.block b]
  | .declaration d => [.declaration d]
  | .declarator v => [.declarator v]
  | .expr (.function fn) => [.expr (.function fn), .function fn]
  | .expr e => [.expr e]
  | .property _ => []
  | .identifier id => [.identifier id]

theorem span_of_mem_visits {t : Subtree} {event : Event} (h : event ∈ t.visits) : event.span = t.span := by
  cases t with
  | stmt s =>
    cases s <;>
      simp only [visits, visitsOfStmt, List.mem_cons, List.not_mem_nil, or_false] at h <;>
      rcases h with rfl | rfl <;> rfl
  | expr e =>
    cases e <;> simp only [visits, List.mem_cons, List.not_mem_nil, or_false] at h <;> rcases h with rfl | rfl <;> rfl
  | property p => cases h
  | _ =>
    obtain rfl := List.mem_singleton.mp h
    rfl

theorem eventsOfExprs_eq (es : List Expr) : eventsOfExprs es = (es.map .expr).flatMap events := by
  induction es with
  | nil => rfl
  | cons e es ih => rw [eventsOfExprs, ih, List.map_cons, List.flatMap_cons, events]

theorem eventsOfElements_eq (es : List (Option Expr)) :
    eventsOfElements es = (es.reduceOption.map .expr).flatMap events := by
  induction es with
  | nil => rfl
  | cons e es ih =>
    cases e with
    | none => rw [eventsOfElements, ih, List.reduceOption_cons_of_none]
    | some e =>
      rw [eventsOfElements, ih, List.reduceOption_cons_of_some, List.map_cons, List.flatMap_cons, events]

theorem eventsOfProperties_eq (ps : List Property) :
    eventsOfProperties ps = (ps.map .property).flatMap events := by
  induction ps with
  | nil => rfl
  | cons p ps ih =>
    obtain ⟨_, _, _⟩ := p
    simp only [eventsOfProperties, ih, List.map_cons, List.flatMap_cons, events, List.append_nil]

theorem eventsOfStmts_eq (ss : List Stmt) : eventsOfStmts ss = (ss.map .stmt).flatMap events := by
  induction ss with
  | nil => rfl
  | cons s ss ih => rw [eventsOfStmts, ih, List.map_cons, List.flatMap_cons, events]

theorem eventsOfDeclarators_eq (ds : List Declarator) :
    eventsOfDeclarators ds = (ds.map .declarator).flatMap events := by
  induction ds with
  | nil => rfl
  | cons d ds ih =>
    obtain ⟨_, _, _⟩ := d
    simp only [eventsOfDeclarators, ih, List.map_cons, List.flatMap_cons, events, List.append_nil, List.cons_append]

theorem eventsOfOption_eq (e : Option Expr) : eventsOfOption e = (e.toList.map .expr).flatMap events := by
  cases e <;> simp [eventsOfOption, events]

theorem eventsOfForInit_eq (init : Option ForInit) :
    eventsOfForInit init = (init.toList.map ForInit.subtree).flatMap events := by
  rcases init with - | (decl | e) <;> simp [eventsOfForInit, ForInit.subtree, events]

theorem flatMap_events_identifier (id : Option Identifier) :
    (id.toList.map Subtree.identifier).flatMap events = id.toList.map .identifier := by
  cases id <;> simp [events]

/-- A visit meets a subtree before the children, which it meets one after the other. -/
theorem events_eq (t : Subtree) : t.events = t.visits ++ t.children.flatMap events := by
  cases t with
  | program p => simp [events, visits, children, Program.events, eventsOfStmts_eq]
  | stmt s =>
    rcases s with _ | ⟨_, _, _, _⟩ | _ | _ | ⟨_, _, _, _, _⟩ | ⟨_, _, _⟩ | ⟨_, _, _, _ | _⟩ | _ | _ | _ | _ | _ | _
    all_goals
      simp [events, visits, visitsOfStmt, children, ofStmt, Stmt.events, eventsOfExprs_eq, eventsOfOption_eq,
        eventsOfForInit_eq]
  | block b =>
    obtain ⟨_, _⟩ := b
    simp [events, visits, children, Block.events, eventsOfStmts_eq]
  | declaration d =>
    obtain ⟨_, _, _⟩ := d
    simp [events, visits, children, Declaration.events, eventsOfDeclarators_eq]
  | declarator v =>
    obtain ⟨_, _, _⟩ := v
    simp [events, visits, children, eventsOfDeclarators, eventsOfOption_eq]
  | expr e =>
    rcases e with _ | _ | _ | _ | _ | ⟨_, _, _, _⟩ | _ | _ | _ | _ | _ | _ | _ | _ | _ | _
    all_goals
      simp [events, visits, children, ofExpr, Expr.events, eventsOfExprs_eq, eventsOfElements_eq, eventsOfProperties_eq,
        flatMap_events_identifier]
  | property p =>
    obtain ⟨_, _, _⟩ := p
    simp [events, visits, children, eventsOfProperties]
  | identifier id => rfl

end Subtree

end IndexedLoop
