import IndexedLoop.Proofs.HookCalls
import IndexedLoop.Tree.Edit

/-!
# Walks that rename

A walk whose hook gives a new name to each expression that is a name leaves the renamed tree (`Hooks.Renames.walkProgram_eq`).
A visit of it meets the same nodes in the same order (`Program.events_renamed`). A name that is met behind an expression which is
a name is the name of this expression, and it is new. Any other name is that of a variable or of a function, and it stays.
-/

namespace IndexedLoop

variable {σ : Type}

section

variable (f : String → String)

/-- A name is met as an expression, and then again as a name. -/
def Event.isName : Event → Bool
  | .expr (.identifier _) => true
  | _ => false

/-- What a visit meets in the renamed tree. A name has a new name if it has just been met as an expression. -/
def Event.renamed (named : Bool) : Event → Event
  | .program p => .program (p.renamed f)
  | .stmt s => .stmt (s.renamed f)
  | .block b => .block (b.renamed f)
  | .declaration d => .declaration (d.renamed f)
  | .declarator v => .declarator { v with init := renamedOption f v.init }
  | .functionDecl fn =>
    .functionDecl { fn with params := renamedExprs f fn.params, body := fn.body.renamed f }
  | .forLoop l =>
    .forLoop ⟨l.span, renamedForInit f l.init, renamedOption f l.test, renamedOption f l.update, l.body.renamed f⟩
  | .whileLoop l => .whileLoop ⟨l.span, l.test.renamed f, l.body.renamed f⟩
  | .ifElse i => .ifElse ⟨i.span, i.test.renamed f, i.consequent.renamed f, renamedBranch f i.alternate⟩
  | .function fn => .function { fn with params := renamedExprs f fn.params, body := fn.body.renamed f }
  | .expr e => .expr (e.renamed f)
  | .identifier id => .identifier (if named then id.renamed f else id)

/-- What a visit meets in the renamed tree, behind an event in which it met a name as an expression or not. -/
def renamedBehind : (named : Bool) → List Event → List Event
  | _, [] => []
  | named, event :: rest => event.renamed f named :: renamedBehind event.isName rest

/-- What a visit meets in the renamed tree: the same, event by event. -/
def renamedEvents (events : List Event) : List Event := renamedBehind f false events

/-! ## The visit of a renamed tree

What follows a node is not behind a name: a name is met twice, as an expression and as a name. -/

theorem renamedBehind_identifiers (id : Option Identifier) (rest : List Event) :
    renamedBehind f false (id.toList.map .identifier ++ rest) =
      id.toList.map .identifier ++ renamedBehind f false rest := by
  cases id <;> rfl

theorem renamedBehind_events : TreeLaw.Holds
    { expr e := ∀ rest,
        renamedBehind f false (e.events ++ rest) = (e.renamed f).events ++ renamedBehind f false rest
      exprs es := ∀ rest, renamedBehind f false (eventsOfExprs es ++ rest) =
        eventsOfExprs (renamedExprs f es) ++ renamedBehind f false rest
      elements es := ∀ rest, renamedBehind f false (eventsOfElements es ++ rest) =
        eventsOfElements (renamedElements f es) ++ renamedBehind f false rest
      properties ps := ∀ rest, renamedBehind f false (eventsOfProperties ps ++ rest) =
        eventsOfProperties (renamedProperties f ps) ++ renamedBehind f false rest
      block b := ∀ rest,
        renamedBehind f false (b.events ++ rest) = (b.renamed f).events ++ renamedBehind f false rest
      stmts ss := ∀ rest, renamedBehind f false (eventsOfStmts ss ++ rest) =
        eventsOfStmts (renamedStmts f ss) ++ renamedBehind f false rest
      declaration d := ∀ rest,
        renamedBehind f false (d.events ++ rest) = (d.renamed f).events ++ renamedBehind f false rest
      declarators ds := ∀ rest, renamedBehind f false (eventsOfDeclarators ds ++ rest) =
        eventsOfDeclarators (renamedDeclarators f ds) ++ renamedBehind f false rest
      option e := ∀ rest, renamedBehind f false (eventsOfOption e ++ rest) =
        eventsOfOption (renamedOption f e) ++ renamedBehind f false rest
      forInit init := ∀ rest, renamedBehind f false (eventsOfForInit init ++ rest) =
        eventsOfForInit (renamedForInit f init) ++ renamedBehind f false rest
      stmt s := ∀ rest,
        renamedBehind f false (s.events ++ rest) = (s.renamed f).events ++ renamedBehind f false rest } := by
  refine TreeLaw.Closed.holds ?_
  constructor
  all_goals
    dsimp only
    intros
  -- the one case in which an event comes behind that of a name which is an expression
  case identifier =>
    simp only [Expr.events, Expr.renamed, List.cons_append, List.nil_append, renamedBehind, Event.isName, Event.renamed,
      ↓reduceIte]
  all_goals
    simp only [Expr.events, Expr.renamed, eventsOfExprs, renamedExprs, eventsOfElements, renamedElements,
      eventsOfProperties, renamedProperties, Block.events, Block.renamed, eventsOfStmts, renamedStmts,
      Declaration.events, Declaration.renamed, eventsOfDeclarators, renamedDeclarators, eventsOfOption, renamedOption,
      eventsOfForInit, renamedForInit, Stmt.events, Stmt.renamed, renamedBranch, renamedBehind, Event.isName,
      Event.renamed, renamedBehind_identifiers, List.cons_append, List.nil_append, List.append_assoc,
      Bool.false_eq_true, ↓reduceIte, *]

/-- A visit meets the same nodes in the same order, with new names for expressions. -/
theorem Program.events_renamed (p : Program) : (p.renamed f).events = renamedEvents f p.events := by
  have body := (renamedBehind_events f).stmts p.body []
  simp only [renamedBehind, List.append_nil] at body
  simp only [renamedEvents, Program.events, Program.renamed, renamedBehind, Event.isName, Event.renamed, body]

end

/-! ## Walks -/

/-- A walk whose hooks rename leaves a program in which a visit meets the same nodes in the same order: each name that is an
expression with its new name, and each other name as it was. A second walk that renames what the first one leaves does what
one walk does that renames by both. -/
theorem walkProgram_renames {f : String → String} {h : Hooks σ} (renames : h.Renames f) (p : Program) (st : σ) :
    (walkProgram h p st).1.events = renamedEvents f p.events ∧
    ∀ {τ υ : Type} {g : String → String} {h' : Hooks τ} {h'' : Hooks υ}, h'.Renames g → h''.Renames (g ∘ f) →
      ∀ st' st'', (walkProgram h' (walkProgram h p st).1 st').1 = (walkProgram h'' p st'').1 := by
  constructor
  · rw [renames.walkProgram_eq, p.events_renamed]
  · intro τ υ g h' h'' again both st' st''
    rw [renames.walkProgram_eq, again.walkProgram_eq, both.walkProgram_eq, p.renamed_renamed]

/-- Edits that only rename are such hooks. A name that has no new name keeps its own. -/
theorem Edits.renames (rename : String → Option String) :
    (Edits.hooks { rename }).Renames fun name => (rename name).getD name := by
  constructor
  case declaration =>
    intro d _
    cases d
    rfl
  case expr =>
    intro e _
    cases e with
    | identifier id =>
      cases new : rename id.name <;>
        simp [hooks, Edits.expr, chooseAlternate, zeroLiteral, renameIdentifier, Expr.renamedHere, Identifier.renamed, new]
    | _ => rfl
  all_goals
    intros
    rfl

/-- A program `var a = function x(a) {return {x: a.x};}; function a(x) {a = x;}`. -/
def exampleNames : Program :=
  let s := Span.none
  let (a, x) := (Expr.ident "a", Expr.ident "x")
  ⟨s, [.declaration ⟨s, .var, [⟨s, ⟨s, "a"⟩, some (.function ⟨s, some ⟨s, "x"⟩, [a],
      ⟨s, [.ret s (some (.object s [⟨s, x, .member s a x .dot⟩]))]⟩⟩)⟩]⟩,
    .functionDecl ⟨s, ⟨s, "a"⟩, [x], ⟨s, [.expression s (.assignment s .assign a x)]⟩⟩]⟩

/-- The names `a` and `x` change places, but not those of the variable and of the two functions. Then `x` becomes `y`. -/
theorem walkProgram_renames_exampleNames :
    let swap := fun name => if name = "a" then "x" else if name = "x" then "a" else name
    let mark := fun name => if name = "x" then "y" else name
    let hooks := fun f : String → String => Edits.hooks { rename := fun name => some (f name) }
    ((hooks swap).Renames swap ∧ (hooks mark).Renames mark ∧ (hooks (mark ∘ swap)).Renames (mark ∘ swap)) ∧
    exampleNames.names = ["a", "x", "a", "x", "a", "x", "a", "x", "a", "x"] ∧
    (walkProgram (hooks swap) exampleNames []).1.names = ["a", "x", "x", "a", "x", "a", "a", "a", "x", "a"] ∧
    (walkProgram (hooks mark) (walkProgram (hooks swap) exampleNames []).1 []).1 =
      (walkProgram (hooks (mark ∘ swap)) exampleNames []).1 := by
  intro swap mark hooks
  have renames (f : String → String) : (hooks f).Renames f := Edits.renames fun name => some (f name)
  obtain ⟨events, twice⟩ := walkProgram_renames (renames swap) exampleNames []
  refine ⟨⟨renames _, renames _, renames _⟩, by decide +kernel, ?_, twice (renames _) (renames _) [] []⟩
  rw [Program.names, events]
  decide +kernel

end IndexedLoop
