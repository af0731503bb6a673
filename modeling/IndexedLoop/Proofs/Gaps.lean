import IndexedLoop.Printer
import IndexedLoop.Proofs.TreeInduction
import Mathlib

/-!
# Every gap in a text is reported

A `Gap` is a node without a text: an unknown node, a literal of an unknown kind, a property reached in an
unknown way. `Node.gaps` lists the gaps of a node in the order of its text. Of a property reached in an
unknown way only the object is printed before the whole is dropped, so the gaps of the object come first
and those of the property do not come at all.

* `Node.faults_render`: printing a node reports its gaps, one entry for each and in this order;
* `gapsOfStmts_eq_nil_iff`: a visit meets no gap exactly where there is none to report;
* `Printer.printing_reports_gaps`: a printer gives the text it gives at first and adds these entries to those it
  has, and over a run of printing and taking every entry is handed out once and in order.
-/

namespace IndexedLoop

/-- A node without a text: why it has none, and where it stands. -/
structure Gap where
  what : Unprintable
  span : Span
deriving DecidableEq, Repr

namespace Gap

/-- The entry reports the gap. It has a place, and one marked stretch, if the gap has an extent. -/
structure Reported (gap : Gap) (entry : Located Unprintable) : Prop where
  cause : entry.cause = gap.what
  span : entry.span = if gap.span.isEmpty then none else some gap.span
  labels : entry.labels = if gap.span.isEmpty then 0 else 1

/-- The entry for a gap. -/
def report (gap : Gap) : Located Unprintable :=
  if gap.span.isEmpty then .nowhere gap.what else .here gap.what gap.span

theorem reported_report (gap : Gap) : gap.Reported gap.report := by
  unfold report
  split
  · exact ⟨rfl, by simp [*, Located.nowhere], by simp [*, Located.labels, Located.nowhere]⟩
  · exact ⟨rfl, by simp [*, Located.here], by simp [*, Located.labels, Located.here]⟩

theorem shown_report {gap : Gap} (h : gap.span.Ordered) : gap.report.shown = true := by
  unfold report
  split
  · rfl
  · exact decide_eq_true h

theorem forall₂_reported (gaps : List Gap) : List.Forall₂ Reported gaps (gaps.map report) := by
  induction gaps with
  | nil => exact .nil
  | cons gap rest ih => exact .cons gap.reported_report ih

end Gap

/-! ## The gaps of a node -/

/-- The gap that a literal is, if it is one. -/
def Literal.gaps (lit : Literal) : List Gap :=
  match lit.value with
  | .other kind _ => [⟨.literal kind, lit.span⟩]
  | _ => []

/-- The gap that an unknown node is. -/
def Unknown.gap (node : Unknown) : Gap := ⟨.node node.kind, node.span⟩

mutual

/-- The gaps of an expression. -/
def Expr.gaps : Expr → List Gap
  | .assignment _ _ left right | .binary _ _ left right => left.gaps ++ right.gaps
  | .unary _ _ argument | .update _ _ _ argument => argument.gaps
  | .sequence _ expressions => gapsOfExprs expressions
  | .function ⟨_, _, params, body⟩ => gapsOfExprs params ++ body.gaps
  | .call _ callee arguments | .new _ callee arguments => callee.gaps ++ gapsOfExprs arguments
  | .conditional _ test consequent alternate => test.gaps ++ consequent.gaps ++ alternate.gaps
  | .member _ object property .dot | .member _ object property .bracket =>
    object.gaps ++ property.gaps
  | .member span object _ (.other tag) => object.gaps ++ [⟨.access tag, span⟩]
  | .object _ properties => gapsOfProperties properties
  | .array _ elements => gapsOfElements elements
  | .this _ | .identifier _ => []
  | .literal lit => lit.gaps
  | .unknown node => [node.gap]

/-- The gaps of expressions, one after the other. -/
def gapsOfExprs : List Expr → List Gap
  | [] => []
  | e :: rest => e.gaps ++ gapsOfExprs rest

/-- The gaps of the elements of an array. A hole is none. -/
def gapsOfElements : List (Option Expr) → List Gap
  | [] => []
  | none :: rest => gapsOfElements rest
  | some e :: rest => e.gaps ++ gapsOfElements rest

/-- The gaps of the properties of an object, each key before its value. -/
def gapsOfProperties : List Property → List Gap
  | [] => []
  | ⟨_, key, value⟩ :: rest => key.gaps ++ value.gaps ++ gapsOfProperties rest

/-- The gaps of a block. -/
def Block.gaps : Block → List Gap
  | ⟨_, body⟩ => gapsOfStmts body

/-- The gaps of statements, one after the other. -/
def gapsOfStmts : List Stmt → List Gap
  | [] => []
  | s :: rest => s.gaps ++ gapsOfStmts rest

/-- The gaps of a declaration. -/
def Declaration.gaps : Declaration → List Gap
  | ⟨_, _, declarators⟩ => gapsOfDeclarators declarators

/-- The gaps of the variables of a declaration. -/
def gapsOfDeclarators : List Declarator → List Gap
  | [] => []
  | ⟨_, _, init⟩ :: rest => gapsOfOption init ++ gapsOfDeclarators rest

/-- The gaps of an expression that may be absent. -/
def gapsOfOption : Option Expr → List Gap
  | none => []
  | some e => e.gaps

/-- The gaps of the first part of the head of a loop. -/
def gapsOfForInit : Option ForInit → List Gap
  | none => []
  | some (.declaration decl) => decl.gaps
  | some (.expression e) => e.gaps

/-- The gaps of a statement. -/
def Stmt.gaps : Stmt → List Gap
  | .declaration decl => decl.gaps
  | .functionDecl ⟨_, _, params, body⟩ => gapsOfExprs params ++ body.gaps
  | .block b => b.gaps
  | .ret _ argument => gapsOfOption argument
  | .forLoop ⟨_, init, test, update, body⟩ =>
    gapsOfForInit init ++ gapsOfOption test ++ gapsOfOption update ++ body.gaps
  | .whileLoop ⟨_, test, body⟩ => test.gaps ++ body.gaps
  | .ifElse ⟨_, test, consequent, none⟩ => test.gaps ++ consequent.gaps
  | .ifElse ⟨_, test, consequent, some alternate⟩ => test.gaps ++ consequent.gaps ++ alternate.gaps
  | .throw _ argument => argument.gaps
  | .expression _ expr => expr.gaps
  | .brk _ | .cont _ | .empty _ => []
  | .unknown node => [node.gap]

end

/-! ## Printing reports the gaps -/

namespace Rendered

@[simp]
theorem faults_ofText (text : String) : (ofText text).faults = [] := rfl

@[simp]
theorem faults_append (a b : Rendered) : (a ++ b).faults = a.faults ++ b.faults := rfl

@[simp]
theorem faults_erase (r : Rendered) : r.erase.faults = r.faults := rfl

@[simp]
theorem faults_wrapIf (condition : Bool) (r : Rendered) : (wrapIf condition r).faults = r.faults := by
  cases condition <;> simp [wrapIf]

@[simp]
theorem faults_missing (what : Unprintable) (span : Span) :
    (missing what span).faults = [Gap.report ⟨what, span⟩] := rfl

@[simp]
theorem faults_join (separator : String) (rs : List Rendered) :
    (join separator rs).faults = rs.flatMap Rendered.faults := by
  induction rs with
  | nil => rfl
  | cons r rest ih =>
    cases rest with
    | nil => simp [join]
    | cons next rest =>
      rw [join, faults_append, faults_append, ih]
      · simp
      · simp

@[simp]
theorem faults_concat (rs : List Rendered) : (concat rs).faults = rs.flatMap Rendered.faults := by
  induction rs with
  | nil => rfl
  | cons r rest ih => rw [concat, faults_append, ih, List.flatMap_cons]

end Rendered

@[simp]
theorem faults_functionHead (name : String) (params : List Rendered) :
    (functionHead name params).faults = params.flatMap Rendered.faults := by
  simp [functionHead]

@[simp]
theorem faults_expressionText (r : Rendered) : (expressionText r).faults = r.faults := by
  simp [expressionText]

/-- Whether an `else` is printed depends on the text of the alternate, what is reported does not. -/
@[simp]
theorem faults_ifElseText (test consequent alternate : Rendered) (openIf : Bool) :
    (ifElseText test consequent alternate openIf).faults =
      test.faults ++ consequent.faults ++ alternate.faults := by
  unfold ifElseText
  split
  · simp
  · split <;> simp

theorem Literal.faults_render (lit : Literal) : lit.render.faults = lit.gaps.map Gap.report := by
  obtain ⟨span, value⟩ := lit
  cases value with
  | boolean value => cases value <;> rfl
  | _ => rfl

theorem render_faults : TreeLaw.Holds
    { expr e := e.render.faults = e.gaps.map Gap.report
      exprs es := (renderExprs es).flatMap Rendered.faults = (gapsOfExprs es).map Gap.report ∧
        (renderListed es).flatMap Rendered.faults = (gapsOfExprs es).map Gap.report
      elements es := (renderElements es).flatMap Rendered.faults = (gapsOfElements es).map Gap.report
      properties ps := (renderProperties ps).flatMap Rendered.faults = (gapsOfProperties ps).map Gap.report
      block b := b.render.faults = b.gaps.map Gap.report
      stmts ss := (renderStmts ss).flatMap Rendered.faults = (gapsOfStmts ss).map Gap.report
      declaration d := d.render.faults = d.gaps.map Gap.report
      declarators ds := (renderDeclarators ds).flatMap Rendered.faults = (gapsOfDeclarators ds).map Gap.report
      option e := (renderOption e).faults = (gapsOfOption e).map Gap.report
      forInit init := (renderForInit init).faults = (gapsOfForInit init).map Gap.report
      stmt s := s.render.faults = s.gaps.map Gap.report } := by
  refine TreeLaw.Closed.holds ?_
  constructor
  all_goals
    dsimp only
    intros
  case literal lit => simp [Expr.render, Expr.gaps, lit.faults_render]
  case update leading _ argument => cases leading <;> simp [Expr.render, Expr.gaps, argument]
  case member access object property => cases access <;> simp [Expr.render, Expr.gaps, object, property]
  case declarators_cons init _ faults rest =>
    cases init with
    | none => simp [renderDeclarators, gapsOfDeclarators, gapsOfOption, rest]
    | some init =>
      simp only [renderOption, gapsOfOption] at faults
      simp [renderDeclarators, gapsOfDeclarators, gapsOfOption, faults, rest]
  all_goals
    simp [Expr.render, Expr.gaps, Unknown.gap, renderExprs, renderListed, gapsOfExprs, renderElements, gapsOfElements,
      renderProperties, gapsOfProperties, Block.render, Block.gaps, renderStmts, gapsOfStmts, Declaration.render,
      Declaration.gaps, renderDeclarators, gapsOfDeclarators, renderOption, gapsOfOption, renderForInit, gapsOfForInit,
      Stmt.render, Stmt.gaps, *]

/-- What a printer can be given. -/
inductive Node where
  | program (program : Program)
  | stmt (stmt : Stmt)
  | expr (expr : Expr)
  | block (block : Block)
  | function (fn : Function)
  | literal (lit : Literal)
  /-- A declaration, in the head of a loop or as a statement. -/
  | declaration (decl : Declaration) (inHead : Bool)

namespace Node

/-- The text of a node. -/
def render : Node → Rendered
  | .program p => p.render
  | .stmt s => s.render
  | .expr e => e.render
  | .block b => b.render
  | .function fn => fn.render
  | .literal lit => lit.render
  | .declaration decl true => decl.render
  | .declaration decl false => (Stmt.declaration decl).render

/-- The gaps of a node, in the order of its text. -/
def gaps : Node → List Gap
  | .program p => gapsOfStmts p.body
  | .stmt s => s.gaps
  | .expr e => e.gaps
  | .block b => b.gaps
  | .function fn => gapsOfExprs fn.params ++ fn.body.gaps
  | .literal lit => lit.gaps
  | .declaration decl _ => decl.gaps

/-- Printing a node reports its gaps. -/
theorem faults_render (node : Node) : node.render.faults = node.gaps.map Gap.report := by
  cases node with
  | program p => rw [render, Program.render, Rendered.faults_concat, render_faults.stmts, gaps]
  | stmt s => exact render_faults.stmt s
  | expr e => exact render_faults.expr e
  | block b => exact render_faults.block b
  | function fn =>
    obtain ⟨_, _, params, body⟩ := fn
    rw [render, Function.render, render_faults.expr, gaps, Expr.gaps]
  | literal lit => exact lit.faults_render
  | declaration decl inHead =>
    cases inHead with
    | true => exact render_faults.declaration decl
    | false => exact render_faults.stmt (.declaration decl)

end Node

/-! ## Where there is no gap -/

/-- The gap that a visit meets, if what it meets is one. -/
def Event.gap? : Event → Option Gap
  | .expr (.unknown node) => some node.gap
  | .expr (.member span _ _ (.other tag)) => some ⟨.access tag, span⟩
  | .expr (.literal ⟨span, .other kind _⟩) => some ⟨.literal kind, span⟩
  | .stmt (.unknown node) => some node.gap
  | _ => none

/-- A visit that meets no gap. -/
def Gapless (events : List Event) : Prop := ∀ event ∈ events, event.gap? = none

@[simp]
theorem gapless_nil : Gapless [] := fun _ h => by cases h

@[simp]
theorem gapless_cons (event : Event) (events : List Event) :
    Gapless (event :: events) ↔ event.gap? = none ∧ Gapless events := by
  simp [Gapless]

@[simp]
theorem gapless_append (xs ys : List Event) : Gapless (xs ++ ys) ↔ Gapless xs ∧ Gapless ys := by
  simp only [Gapless, List.forall_mem_append]

@[simp]
theorem gapless_identifiers (ids : List Identifier) : Gapless (ids.map .identifier) := by
  intro event h
  obtain ⟨_, -, rfl⟩ := List.mem_map.mp h
  rfl

theorem Literal.gaps_eq_nil_iff (lit : Literal) :
    lit.gaps = [] ↔ (Event.expr (.literal lit)).gap? = none := by
  obtain ⟨_, value⟩ := lit
  cases value <;> simp [Literal.gaps, Event.gap?]

theorem gaps_eq_nil_iff : TreeLaw.Holds
    { expr e := e.gaps = [] ↔ Gapless e.events
      exprs es := gapsOfExprs es = [] ↔ Gapless (eventsOfExprs es)
      elements es := gapsOfElements es = [] ↔ Gapless (eventsOfElements es)
      properties ps := gapsOfProperties ps = [] ↔ Gapless (eventsOfProperties ps)
      block b := b.gaps = [] ↔ Gapless b.events
      stmts ss := gapsOfStmts ss = [] ↔ Gapless (eventsOfStmts ss)
      declaration d := d.gaps = [] ↔ Gapless d.events
      declarators ds := gapsOfDeclarators ds = [] ↔ Gapless (eventsOfDeclarators ds)
      option e := gapsOfOption e = [] ↔ Gapless (eventsOfOption e)
      forInit init := gapsOfForInit init = [] ↔ Gapless (eventsOfForInit init)
      stmt s := s.gaps = [] ↔ Gapless s.events } := by
  refine TreeLaw.Closed.holds ?_
  constructor
  all_goals
    dsimp only
    intros
  case literal lit => simp [Expr.gaps, Expr.events, lit.gaps_eq_nil_iff]
  case member access object property =>
    cases access <;> simp [Expr.gaps, Expr.events, Event.gap?, object, property]
  all_goals
    simp [Expr.gaps, Expr.events, gapsOfExprs, eventsOfExprs, gapsOfElements, eventsOfElements, gapsOfProperties,
      eventsOfProperties, Block.gaps, Block.events, gapsOfStmts, eventsOfStmts, Declaration.gaps, Declaration.events,
      gapsOfDeclarators, eventsOfDeclarators, gapsOfOption, eventsOfOption, gapsOfForInit, eventsOfForInit,
      Stmt.gaps, Stmt.events, Event.gap?, *]

theorem gapsOfStmts_eq_nil_iff (ss : List Stmt) : gapsOfStmts ss = [] ↔ Gapless (eventsOfStmts ss) :=
  gaps_eq_nil_iff.stmts ss

/-- A program is printed completely if and only if a visit of it meets no gap, at any depth. -/
theorem isComplete_render_iff (program : Program) :
    program.render.isComplete = true ↔ Gapless program.events := by
  have faults : program.render.faults = (gapsOfStmts program.body).map Gap.report :=
    (Node.program program).faults_render
  rw [Rendered.isComplete, faults, List.isEmpty_iff, List.map_eq_nil_iff, gapsOfStmts_eq_nil_iff,
    Program.events, gapless_cons]
  exact (and_iff_right rfl).symm

/-! ## Runs of a printer -/

namespace Printer

/-- What a printer can be asked for. -/
inductive Step where
  | print (node : Node)
  | take

/-- The gaps that a step meets. -/
def Step.gaps : Step → List Gap
  | .print node => node.gaps
  | .take => []

/-- Does one step after the other. Gives what was handed out, and the printer behind the last step. -/
def run (p : Printer) : List Step → Except ReversedSpan (List (Located Unprintable) × Printer)
  | [] => .ok ([], p)
  | .print node :: rest => do
    let (_, p) ← p.print node.render
    p.run rest
  | .take :: rest => do
    let (entries, p) := p.take
    let (later, p) ← p.run rest
    return (entries ++ later, p)

/-- A printer gives the text of a node and adds the reports of its gaps to those it has. -/
theorem print_render (p : Printer) {node : Node} (ordered : ∀ gap ∈ node.gaps, gap.span.Ordered) :
    p.print node.render = .ok (node.render.text, ⟨p.pending ++ node.gaps.map Gap.report⟩) := by
  have shown : node.render.faults.find? (fun fault => !fault.shown) = none := by
    rw [node.faults_render, List.find?_eq_none]
    intro fault mem
    obtain ⟨gap, hg, rfl⟩ := List.mem_map.mp mem
    simp [Gap.shown_report (ordered gap hg)]
  rw [print, shown, node.faults_render]

/-- A run hands out the entries in the order in which they were made. What is not handed out yet is kept, and
taking leaves nothing. -/
theorem run_eq (steps : List Step) (p : Printer)
    (ordered : ∀ gap ∈ steps.flatMap Step.gaps, gap.span.Ordered) :
    ∃ handed q, p.run steps = .ok (handed, q) ∧
      handed ++ q.pending = p.pending ++ (steps.flatMap Step.gaps).map Gap.report ∧
      (steps.getLast? = some .take → q.pending = []) := by
  induction steps generalizing p with
  | nil => exact ⟨[], p, rfl, by simp, fun h => by cases h⟩
  | cons step rest ih =>
    rw [List.flatMap_cons, List.forall_mem_append] at ordered
    cases step with
    | print node =>
      obtain ⟨handed, q, run, kept, last⟩ := ih ⟨p.pending ++ node.gaps.map Gap.report⟩ ordered.2
      refine ⟨handed, q, ?_, ?_, fun h => last ?_⟩
      · rw [Printer.run, p.print_render ordered.1]
        exact run
      · rw [kept, List.flatMap_cons, List.map_append, List.append_assoc]
        rfl
      · cases rest with
        | nil => cases h
        | cons next rest => rwa [List.getLast?_cons_cons] at h
    | take =>
      obtain ⟨handed, q, run, kept, last⟩ := ih new ordered.2
      refine ⟨p.pending ++ handed, q, ?_, ?_, fun h => ?_⟩
      · rw [Printer.run, take]
        simp only [run]
        rfl
      · rw [List.append_assoc, kept]
        rfl
      · cases rest with
        | nil =>
          cases run
          rfl
        | cons next rest => exact last (by rwa [List.getLast?_cons_cons] at h)

/-- Reports are exact and printing has no memory. A printer that has entries gives the text of a node that a
new one gives, and adds one entry for each gap of the node, in the order of the text. A program is printed
completely if and only if it holds no gap. Over a run of printing and taking, every entry is handed out once
and in order, and taking leaves nothing behind. -/
theorem printing_reports_gaps :
    (∀ (p : Printer) (node : Node), (∀ gap ∈ node.gaps, gap.span.Ordered) →
      ∃ text entries, List.Forall₂ Gap.Reported node.gaps entries ∧
        new.print node.render = .ok (text, ⟨entries⟩) ∧
        p.print node.render = .ok (text, ⟨p.pending ++ entries⟩)) ∧
    (∀ program : Program,
      program.render.isComplete = true ↔ ∀ event ∈ program.events, event.gap? = none) ∧
    (∀ (p : Printer) (steps : List Step), (∀ gap ∈ steps.flatMap Step.gaps, gap.span.Ordered) →
      ∃ handed q entries, p.run steps = .ok (handed, q) ∧
        List.Forall₂ Gap.Reported (steps.flatMap Step.gaps) entries ∧
        handed ++ q.pending = p.pending ++ entries ∧
        (steps.getLast? = some .take → q.pending = [])) := by
  refine ⟨fun p node ordered => ?_, isComplete_render_iff, fun p steps ordered => ?_⟩
  · exact ⟨_, _, Gap.forall₂_reported _, new.print_render ordered, p.print_render ordered⟩
  · obtain ⟨handed, q, run, kept, last⟩ := run_eq steps p ordered
    exact ⟨handed, q, _, run, Gap.forall₂_reported _, kept, last⟩

/-- `a.b` reached in an unknown way from an unknown object, with an unknown property. -/
def exampleMember : Expr :=
  .member ⟨"", ⟨0, 0⟩, ⟨0, 5⟩, 0, 5⟩ (.unknown ⟨Span.none, "object"⟩) (.unknown ⟨Span.none, "property"⟩)
    (.other "tag")

/-- Two entries, the one of the object first and without a place, none for the property. They are handed out
once. -/
theorem printing_reports_gaps_exampleMember :
    (∀ gap ∈ [Step.print (.expr exampleMember), .take, .take].flatMap Step.gaps, gap.span.Ordered) ∧
    ∃ handed q, new.run [.print (.expr exampleMember), .take, .take] = .ok (handed, q) ∧ q.pending = [] ∧
      handed = [.nowhere (.node "object"), .here (.access "tag") exampleMember.span] := by
  have ordered : ∀ gap ∈ [Step.print (.expr exampleMember), .take, .take].flatMap Step.gaps,
      gap.span.Ordered := by decide
  have known : new.run [.print (.expr exampleMember), .take, .take] =
      .ok ([.nowhere (.node "object"), .here (.access "tag") exampleMember.span], new) := by rfl
  obtain ⟨handed, q, _, run, -, -, last⟩ := printing_reports_gaps.2.2 new _ ordered
  refine ⟨ordered, handed, q, run, last rfl, ?_⟩
  rw [known] at run
  cases run
  rfl

end Printer

end IndexedLoop
