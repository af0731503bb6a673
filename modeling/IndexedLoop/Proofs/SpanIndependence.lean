import IndexedLoop.Proofs.Reports
import IndexedLoop.Proofs.RoundTrip.Bare
import IndexedLoop.Proofs.Skeleton
import IndexedLoop.Proofs.TreeInduction

/-!
# Spans do not matter

Taking the spans off a tree is a relabelling that no conversion can see (`Relabel.unseen_bare`), so it makes no
difference whether the spans go before or after a conversion. The names that a visit meets have no spans, so two
programs that are equal up to spans start a conversion with the same names and draw the same ones. Of a report only
the place depends on spans (`Program.causes_eq_of_bare`). Together: `Converter.convert_ignores_spans`.
-/

namespace IndexedLoop

/-! ## Bare trees are relabelled trees -/

namespace Relabel

/-- No spans, and the old names. -/
def bare : Relabel := ⟨fun _ => Span.none, id⟩

@[simp] theorem bare_span (span : Span) : bare.span span = Span.none := rfl

theorem unseen_bare : bare.Unseen := ⟨rfl, fun _ => Iff.rfl, rfl⟩

end Relabel

theorem relabel_bare : TreeLaw.Holds
    { expr e := e.relabel .bare = e.bare
      exprs es := relabelExprs .bare es = bareExprs es
      elements es := relabelElements .bare es = bareElements es
      properties ps := relabelProperties .bare ps = bareProperties ps
      block b := b.relabel .bare = b.bare
      stmts ss := relabelStmts .bare ss = bareStmts ss
      declaration d := d.relabel .bare = d.bare
      declarators ds := relabelDeclarators .bare ds = bareDeclarators ds
      option e := relabelOption .bare e = bareOption e
      forInit init := relabelForInit .bare init = bareForInit init
      stmt s := s.relabel .bare = s.bare } := by
  refine TreeLaw.Closed.holds ?_
  constructor
  all_goals
    dsimp only
    intros
  case this | identifier | literal | unknownExpr | unknownStmt => rfl
  case function | functionDecl | declarators_cons =>
    simp only [Expr.relabel, Expr.bare, Function.relabel, Function.bare, Stmt.relabel, Stmt.bare, FunctionDecl.relabel,
      relabelDeclarators, bareDeclarators, *]
    rfl
  all_goals
    simp only [Expr.relabel, Expr.bare, relabelExprs, bareExprs, relabelElements, bareElements, relabelProperties,
      bareProperties, Block.relabel, Block.bare, relabelStmts, bareStmts, Declaration.relabel, Declaration.bare,
      relabelDeclarators, bareDeclarators, relabelOption, bareOption, relabelForInit, bareForInit, Stmt.relabel,
      ForLoop.relabel, WhileLoop.relabel, IfElse.relabel, relabelBranch, Stmt.bare, Relabel.bare_span, *]

theorem relabelStmts_bare (ss : List Stmt) : relabelStmts .bare ss = bareStmts ss := relabel_bare.stmts ss

/-! ## Gaps with new labels -/

/-- The gap with a new span. -/
def Gap.relabel (m : Relabel) (gap : Gap) : Gap := { gap with span := m.span gap.span }

section

variable (m : Relabel)

theorem Literal.gaps_relabel (lit : Literal) : (lit.relabel m).gaps = lit.gaps.map (Gap.relabel m) := by
  obtain ⟨_, value⟩ := lit
  cases value <;> rfl

theorem gaps_relabel : TreeLaw.Holds
    { expr e := (e.relabel m).gaps = e.gaps.map (Gap.relabel m)
      exprs es := gapsOfExprs (relabelExprs m es) = (gapsOfExprs es).map (Gap.relabel m)
      elements es := gapsOfElements (relabelElements m es) = (gapsOfElements es).map (Gap.relabel m)
      properties ps := gapsOfProperties (relabelProperties m ps) = (gapsOfProperties ps).map (Gap.relabel m)
      block b := (b.relabel m).gaps = b.gaps.map (Gap.relabel m)
      stmts ss := gapsOfStmts (relabelStmts m ss) = (gapsOfStmts ss).map (Gap.relabel m)
      declaration d := (d.relabel m).gaps = d.gaps.map (Gap.relabel m)
      declarators ds := gapsOfDeclarators (relabelDeclarators m ds) = (gapsOfDeclarators ds).map (Gap.relabel m)
      option e := gapsOfOption (relabelOption m e) = (gapsOfOption e).map (Gap.relabel m)
      forInit init := gapsOfForInit (relabelForInit m init) = (gapsOfForInit init).map (Gap.relabel m)
      stmt s := (s.relabel m).gaps = s.gaps.map (Gap.relabel m) } := by
  refine TreeLaw.Closed.holds ?_
  constructor
  all_goals
    dsimp only
    intros
  case literal lit => exact lit.gaps_relabel m
  case member access object property =>
    cases access <;> simp only [Expr.relabel, Expr.gaps, object, property, List.map_append, List.map_cons, List.map_nil]
    rfl
  case this | identifier | unknownExpr | brk | cont | empty | unknownStmt => rfl
  all_goals
    simp only [Expr.relabel, Function.relabel, Expr.gaps, relabelExprs, gapsOfExprs, relabelElements, gapsOfElements,
      relabelProperties, gapsOfProperties, Block.relabel, Block.gaps, relabelStmts, gapsOfStmts, Declaration.relabel,
      Declaration.gaps, relabelDeclarators, gapsOfDeclarators, relabelOption, gapsOfOption, relabelForInit,
      gapsOfForInit, Stmt.relabel, FunctionDecl.relabel, ForLoop.relabel, WhileLoop.relabel, IfElse.relabel,
      relabelBranch, Stmt.gaps, List.map_append, List.map_nil, *]

/-- A tree with new labels has the same gaps in the same order, with new spans. -/
theorem gapsOfStmts_relabel (ss : List Stmt) :
    gapsOfStmts (relabelStmts m ss) = (gapsOfStmts ss).map (Gap.relabel m) :=
  (gaps_relabel m).stmts ss

end

/-! ## Programs that are equal up to spans -/

namespace Program

variable {p q : Program}

theorem relabel_eq_of_bare (same : p.bare = q.bare) : relabelStmts .bare p.body = relabelStmts .bare q.body := by
  rw [relabelStmts_bare, relabelStmts_bare]
  exact congrArg Program.body same

theorem names_eq_filterMap (program : Program) :
    program.names = (eventsOfStmts program.body).filterMap fun
      | .identifier id => some id.name
      | _ => none := rfl

/-- A visit meets the same names. -/
theorem names_eq_of_bare (same : p.bare = q.bare) : p.names = q.names := by
  have bare (program : Program) :
      (eventsOfStmts (relabelStmts .bare program.body)).filterMap (fun
        | .identifier id => some id.name
        | _ => none) = program.names := by
    rw [events_relabelStmts, List.filterMap_map, names_eq_filterMap]
    refine congrArg (List.filterMap · _) (funext fun event => ?_)
    cases event <;> rfl
  rw [← bare p, relabel_eq_of_bare same, bare q]

/-- The same things are missing in the texts, in the same order. -/
theorem causes_eq_of_bare (same : p.bare = q.bare) :
    (Node.program p).gaps.map Gap.what = (Node.program q).gaps.map Gap.what := by
  have bare (program : Program) :
      (gapsOfStmts (relabelStmts .bare program.body)).map Gap.what = (Node.program program).gaps.map Gap.what := by
    rw [gapsOfStmts_relabel, List.map_map]
    rfl
  rw [← bare p, relabel_eq_of_bare same, bare q]

end Program

theorem Gap.cause_report (gap : Gap) : gap.report.cause = gap.what := gap.reported_report.cause

namespace Printer

/-- Both programs are printed. They have the same text, and the same things are reported missing, in the same
order. -/
def PrintsAlike (printer : Printer) (p q : Program) : Prop :=
  ∃ text entries entries',
    printer.print p.render = .ok (text, ⟨printer.pending ++ entries⟩) ∧
    printer.print q.render = .ok (text, ⟨printer.pending ++ entries'⟩) ∧
    entries.map Located.cause = entries'.map Located.cause

theorem printsAlike_of_bare (printer : Printer) {p q : Program} (same : p.bare = q.bare)
    (hp : ∀ gap ∈ (Node.program p).gaps, gap.span.Ordered)
    (hq : ∀ gap ∈ (Node.program q).gaps, gap.span.Ordered) : printer.PrintsAlike p q := by
  have printed := printer.print_render hq
  have text : (Node.program q).render.text = (Node.program p).render.text := (Program.text_eq_of_bare same).symm
  rw [text] at printed
  refine ⟨_, _, _, printer.print_render hp, printed, ?_⟩
  have causes (gaps : List Gap) : (gaps.map Gap.report).map Located.cause = gaps.map Gap.what := by
    rw [List.map_map]
    exact List.map_congr_left fun gap _ => gap.cause_report
  rw [causes, causes, Program.causes_eq_of_bare same]

end Printer

/-! ## Conversions -/

namespace Converter

variable (c : Converter) {p q : Program}

theorem namesFor_eq_of_bare (same : p.bare = q.bare) : c.namesFor p = c.namesFor q := by
  simp only [namesFor, NameSupply.reserveProgram, NameSupply.dollarNames, Program.names_eq_of_bare same]

/-- It makes no difference whether the spans go before or after a walk. -/
theorem walkStmts_bare (names : Naming) (ss : List Stmt) :
    walkStmts names.hooks (relabelStmts .bare ss) 0 =
      (relabelStmts .bare (walkStmts names.hooks ss 0).1, (walkStmts names.hooks ss 0).2) :=
  walkStmts_relabel Relabel.unseen_bare ss 0 fun _ _ _ => rfl

theorem conversionsOfStmts_bare (ss : List Stmt) :
    conversionsOfStmts (relabelStmts .bare ss) = conversionsOfStmts ss := by
  -- A walk counts the conversions, whatever names it draws for them.
  have names : Naming := fun _ => ("", "")
  rw [← walkStmts_count names, walkStmts_bare, walkStmts_count]

theorem conversions_eq_of_bare (same : p.bare = q.bare) : p.conversions = q.conversions := by
  rw [Program.conversions, ← conversionsOfStmts_bare, Program.relabel_eq_of_bare same, conversionsOfStmts_bare,
    Program.conversions]

theorem bare_convert_eq_of_bare (same : p.bare = q.bare) : (c.convert p).1.bare = (c.convert q).1.bare := by
  have naming : c.naming p = c.naming q := by rw [Converter.naming, c.namesFor_eq_of_bare same, Converter.naming]
  have walks : relabelStmts .bare (walkStmts (c.naming p).hooks p.body 0).1 =
      relabelStmts .bare (walkStmts (c.naming q).hooks q.body 0).1 := by
    have walk := congrArg Prod.fst (walkStmts_bare (c.naming p) p.body)
    rw [Program.relabel_eq_of_bare same, naming, walkStmts_bare] at walk
    rw [naming]
    exact walk.symm
  rw [relabelStmts_bare, relabelStmts_bare] at walks
  rw [c.convert_fst, c.convert_fst, Program.bare, Program.bare, walks]

theorem converter_eq_of_bare (same : p.bare = q.bare) : (c.convert p).2.1 = (c.convert q).2.1 := by
  have names : (c.convert p).2.1.names = (c.convert q).2.1.names := by
    rw [c.names_convert, c.names_convert, c.namesFor_eq_of_bare same, conversions_eq_of_bare same]
  have converted : (c.convert p).2.1.converted = (c.convert q).2.1.converted := by
    rw [c.converted_convert, c.converted_convert, conversions_eq_of_bare same]
  exact congrArg₂ (Converter.mk c.config) names converted

theorem ordered_gaps_convert (h : ∀ gap ∈ (Node.program p).gaps, gap.span.Ordered) :
    ∀ gap ∈ (Node.program (c.convert p).1).gaps, gap.span.Ordered :=
  fun gap mem => h gap ((mem_gaps_walkStmts c.config p.body _ gap).mp mem)

/-- Spans never influence the result. If two programs are equal up to spans, then so is what a converter makes of
them, and it goes on with the same counter, the same reserved names and the same number of conversions. If no gap
of them has a span that runs backwards, then a printer gives the same text for both and reports the same things
missing in the same order, and it does so too for what the converter makes of them. -/
theorem convert_ignores_spans (same : p.bare = q.bare) :
    (c.convert p).1.bare = (c.convert q).1.bare ∧
    (c.convert p).2.1 = (c.convert q).2.1 ∧
    ((∀ gap ∈ (Node.program p).gaps, gap.span.Ordered) → (∀ gap ∈ (Node.program q).gaps, gap.span.Ordered) →
      ∀ printer : Printer,
        printer.PrintsAlike p q ∧ printer.PrintsAlike (c.convert p).1 (c.convert q).1) := by
  have result := c.bare_convert_eq_of_bare same
  refine ⟨result, c.converter_eq_of_bare same, fun hp hq printer => ⟨?_, ?_⟩⟩
  · exact printer.printsAlike_of_bare same hp hq
  · exact printer.printsAlike_of_bare result (c.ordered_gaps_convert hp) (c.ordered_gaps_convert hq)

/-- `f().forEach(function (x) {$i1;})` with an unknown node as the argument of `f`, which stands at `span`. -/
def exampleUnknownArgument (span : Span) : Program :=
  ⟨span,
    [.expression span (.call span
      (.member Span.none (.call span (Expr.ident "f") [.unknown ⟨span, "arrow_function"⟩])
        (.identifier ⟨span, "forEach"⟩) .dot)
      [.function ⟨span, none, [.identifier ⟨span, "x"⟩], ⟨span, [.expression Span.none (Expr.ident "$i1")]⟩⟩])]⟩

/-- The span with which the unknown node is reported at a place. -/
def exampleSpan : Span := ⟨"a.js", ⟨0, 2⟩, ⟨1, 3⟩, 2, 9⟩

/-- One program with spans and one without. The node is reported with and without a place, for each of the copies
that the conversion makes. -/
theorem convert_ignores_spans_exampleUnknownArgument :
    (exampleUnknownArgument exampleSpan).bare = (exampleUnknownArgument Span.none).bare ∧
    (∀ gap ∈ (Node.program (exampleUnknownArgument exampleSpan)).gaps, gap.span.Ordered) ∧
    (∀ gap ∈ (Node.program (exampleUnknownArgument Span.none)).gaps, gap.span.Ordered) ∧
    (exampleConverter.convert (exampleUnknownArgument exampleSpan)).2.1 =
      (exampleConverter.convert (exampleUnknownArgument Span.none)).2.1 ∧
    Printer.new.PrintsAlike (exampleConverter.convert (exampleUnknownArgument exampleSpan)).1
      (exampleConverter.convert (exampleUnknownArgument Span.none)).1 := by
  have same : (exampleUnknownArgument exampleSpan).bare = (exampleUnknownArgument Span.none).bare := rfl
  have hp : ∀ gap ∈ (Node.program (exampleUnknownArgument exampleSpan)).gaps, gap.span.Ordered := by decide
  have hq : ∀ gap ∈ (Node.program (exampleUnknownArgument Span.none)).gaps, gap.span.Ordered := by decide
  obtain ⟨-, converter, prints⟩ := exampleConverter.convert_ignores_spans same
  exact ⟨same, hp, hq, converter, (prints hp hq Printer.new).2⟩

end Converter

end IndexedLoop
