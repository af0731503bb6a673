import IndexedLoop.Proofs.Gaps
import IndexedLoop.Proofs.Idiom
import IndexedLoop.Proofs.Walk

/-!
# A conversion keeps the gaps

What a conversion drops of a `forEach` statement has a text: the name of the property, the name and the
parameters of the function, and `this`. The receiver stands in the head of the loop, so it is kept at least
once, and every statement of the function is kept. So the loop has the gaps of the statement, though it may
have some of them more often (`ForEach.mem_gaps_toLoop`). The same holds of whole programs, and printing them
gives the same reports (`convert_keeps_reports`).
-/

namespace IndexedLoop

open Conversion

/-! ## The gaps of the loop -/

theorem gapsOfStmts_append (xs ys : List Stmt) :
    gapsOfStmts (xs ++ ys) = gapsOfStmts xs ++ gapsOfStmts ys := by
  induction xs with
  | nil => simp [gapsOfStmts]
  | cons s rest ih => simp only [List.cons_append, gapsOfStmts, ih, List.append_assoc]

theorem gapsOfExprs_identifiers (ids : List Identifier) : gapsOfExprs (ids.map .identifier) = [] := by
  induction ids with
  | nil => simp [gapsOfExprs]
  | cons id rest ih => simp [gapsOfExprs, Expr.gaps, ih]

/-! A node with fields has the gaps of its fields. -/

theorem Block.gaps_eq (b : Block) : b.gaps = gapsOfStmts b.body := by
  cases b
  simp only [Block.gaps]

theorem Declaration.gaps_eq (d : Declaration) : d.gaps = gapsOfDeclarators d.declarators := by
  cases d
  simp only [Declaration.gaps]

theorem gaps_function (f : Function) : (Expr.function f).gaps = gapsOfExprs f.params ++ f.body.gaps := by
  cases f
  simp only [Expr.gaps]

theorem gaps_functionDecl (f : FunctionDecl) :
    (Stmt.functionDecl f).gaps = gapsOfExprs f.params ++ f.body.gaps := by
  cases f
  simp only [Stmt.gaps]

theorem gaps_forLoop (l : ForLoop) :
    (Stmt.forLoop l).gaps =
      gapsOfForInit l.init ++ gapsOfOption l.test ++ gapsOfOption l.update ++ l.body.gaps := by
  cases l
  simp only [Stmt.gaps]

theorem gaps_whileLoop (l : WhileLoop) : (Stmt.whileLoop l).gaps = l.test.gaps ++ l.body.gaps := by
  cases l
  simp only [Stmt.gaps]

/-- The gaps of a branch that may be absent. -/
def gapsOfBranch : Option Stmt → List Gap
  | none => []
  | some s => s.gaps

theorem gaps_ifElse (i : IfElse) :
    (Stmt.ifElse i).gaps = i.test.gaps ++ i.consequent.gaps ++ gapsOfBranch i.alternate := by
  obtain ⟨_, _, _, alternate⟩ := i
  cases alternate <;> simp [Stmt.gaps, gapsOfBranch]

namespace ForEach

theorem gaps_argument (receiver : Expr) (index : String) (k : Nat) :
    (argument receiver index k).gaps = [] ∨ (argument receiver index k).gaps = receiver.gaps := by
  unfold argument
  split
  · exact .inr (by simp [property, Expr.ident, Expr.gaps])
  · exact .inl (by simp [Expr.ident, Expr.gaps])
  · exact .inr rfl
  · exact .inl (by simp [Expr.zero, Expr.gaps, Literal.gaps])

/-- The bindings have gaps only where they repeat the receiver. -/
theorem mem_receiver_of_bindings {receiver : Expr} {index : String} {k : Nat} {ids : List Identifier}
    {gap : Gap} (h : gap ∈ gapsOfStmts (bindings receiver index k ids)) : gap ∈ receiver.gaps := by
  induction ids generalizing k with
  | nil => simp [bindings, gapsOfStmts] at h
  | cons id rest ih =>
    simp only [bindings, gapsOfStmts, Stmt.gaps, varOf, variableOf, Declaration.gaps, gapsOfDeclarators,
      gapsOfOption, List.append_nil, List.mem_append] at h
    rcases h with first | later
    · rcases gaps_argument receiver index k with e | e
      · rw [e] at first
        cases first
      · rwa [e] at first
    · exact ih later

/-- The gaps of the loop are those of the receiver and of the function. -/
theorem mem_gaps_toLoop (each : ForEach) (index length : String) (gap : Gap) :
    gap ∈ (Stmt.forLoop (each.toLoop index length)).gaps ↔
      gap ∈ each.receiver.gaps ∨ gap ∈ each.body.gaps := by
  simp only [toLoop, property, varOf, variableOf, Stmt.gaps, gapsOfForInit, Declaration.gaps,
    gapsOfDeclarators, gapsOfOption, Expr.gaps, Expr.ident, Expr.zero, Literal.gaps, Block.gaps,
    gapsOfStmts_append, each.body.gaps_eq, List.append_nil, List.nil_append, List.mem_append]
  constructor
  · rintro (receiver | binding | body)
    · exact .inl receiver
    · exact .inl (mem_receiver_of_bindings binding)
    · exact .inr body
  · rintro (receiver | body)
    · exact .inl receiver
    · exact .inr (.inr body)

theorem gaps_of_isForEachName {access : Access} {property : Expr} (h : isForEachName access property = true)
    (span : Span) (receiver : Expr) : (Expr.member span receiver property access).gaps = receiver.gaps := by
  unfold isForEachName at h
  split at h
  · simp [Expr.gaps]
  · simp [Expr.gaps, Literal.gaps]
  · cases h

theorem gaps_of_isThisArgument {rest : List Expr} (h : isThisArgument rest = true) : gapsOfExprs rest = [] := by
  unfold isThisArgument at h
  split at h
  · simp [gapsOfExprs]
  · simp [gapsOfExprs, Expr.gaps]
  · cases h

/-- The gaps of the statement are those of the receiver and of the function, each once. -/
theorem Written.gaps {each : ForEach} {s : Stmt} (h : each.Written s) :
    s.gaps = each.receiver.gaps ++ each.body.gaps := by
  cases h with
  | mk name this stays =>
    simp only [Stmt.gaps, Expr.gaps, gapsOfExprs, gaps_of_isForEachName name, gapsOfExprs_identifiers,
      gaps_of_isThisArgument this, List.nil_append, List.append_nil]

end ForEach

/-- The loop has the gaps of the statement that it stands for. -/
theorem mem_gaps_convertStmt (config : Config) (s : Stmt) (st : Conversion) (gap : Gap) :
    gap ∈ (convertStmt config s st).1.gaps ↔ gap ∈ s.gaps := by
  rcases convertStmt_cases config s st with e | ⟨each, m, n, written, e⟩
  · rw [e]
  · rw [e, each.mem_gaps_toLoop, written.gaps, List.mem_append]

/-! ## The law of a conversion -/

/-- Two lists have the same gaps, in any order and any number. -/
def SameGaps (xs ys : List Gap) : Prop := ∀ gap, gap ∈ ys ↔ gap ∈ xs

theorem SameGaps.append {xs xs' ys ys' : List Gap} (h : SameGaps xs xs') (h' : SameGaps ys ys') :
    SameGaps (xs ++ ys) (xs' ++ ys') := by
  intro gap
  rw [List.mem_append, List.mem_append, h gap, h' gap]

theorem SameGaps.refl (xs : List Gap) : SameGaps xs xs := fun _ => Iff.rfl

/-- A conversion leaves a node with the gaps that it has. -/
def keepsGaps : Law Conversion where
  expr e _ r := SameGaps e.gaps r.1.gaps
  exprs es _ r := SameGaps (gapsOfExprs es) (gapsOfExprs r.1)
  elements es _ r := SameGaps (gapsOfElements es) (gapsOfElements r.1)
  properties ps _ r := SameGaps (gapsOfProperties ps) (gapsOfProperties r.1)
  function f _ r := SameGaps (Expr.function f).gaps (Expr.function r.1).gaps
  block b _ r := SameGaps b.gaps r.1.gaps
  stmts ss _ r := SameGaps (gapsOfStmts ss) (gapsOfStmts r.1)
  declarators ds _ r := SameGaps (gapsOfDeclarators ds) (gapsOfDeclarators r.1)
  option e _ r := SameGaps (gapsOfOption e) (gapsOfOption r.1)
  forInit i _ r := SameGaps (gapsOfForInit i) (gapsOfForInit r.1)
  branch s _ r := SameGaps (gapsOfBranch s) (gapsOfBranch r.1)
  inside s _ r := SameGaps s.gaps r.1.gaps
  stmt s _ r := SameGaps s.gaps r.1.gaps

theorem keepsGaps_closed (config : Config) : keepsGaps.Closed (convertStmt config) := by
  constructor
  all_goals simp only [keepsGaps]
  all_goals intros
  case change h => exact fun gap => (h gap).trans (mem_gaps_convertStmt ..)
  -- of a property reached in an unknown way only the object is printed
  case member access _ _ _ ho hp =>
    cases access with
    | dot | bracket => simpa only [Expr.gaps] using ho.append hp
    | other tag => simpa only [Expr.gaps] using ho.append (.refl _)
  case functions hp hb => simpa only [gaps_function] using hp.append hb
  case functionDecl hp hb => simpa only [gaps_functionDecl] using hp.append hb
  case forLoop hi ht hu hb => simpa only [gaps_forLoop] using ((hi.append ht).append hu).append hb
  case whileLoop ht hb => simpa only [gaps_whileLoop] using ht.append hb
  case ifElse ht hc ha => simpa only [gaps_ifElse] using (ht.append hc).append ha
  case blocks h => simpa only [Block.gaps_eq] using h
  case declaration h | forInit_declaration h =>
    simpa only [Stmt.gaps, gapsOfForInit, Declaration.gaps_eq] using h
  case conditional h₁ h₂ h₃ | properties_cons h₁ h₂ h₃ => exact (h₁.append h₂).append h₃
  case assignment h₁ h₂ | binary h₁ h₂ | call h₁ h₂ | new h₁ h₂ | exprs_cons h₁ h₂ | elements_cons h₁ h₂
      | stmts_cons h₁ h₂ | declarators_cons h₁ h₂ =>
    exact h₁.append h₂
  case this | identifier | literal | unknown | exprs_nil | elements_nil | properties_nil | stmts_nil
      | declarators_nil | option_none | forInit_none | branch_none | brk | cont | empty | unknownStmt =>
    exact .refl _
  all_goals assumption

theorem mem_gaps_walkStmts (config : Config) (ss : List Stmt) (st : Conversion) :
    SameGaps (gapsOfStmts ss) (gapsOfStmts (walkStmts (hooks config) ss st).1) := by
  have closed : keepsGaps.Closed (hooks config).stmt := keepsGaps_closed config
  exact (closed.holds (Hooks.onStatements_idle _ _)).stmts ss st

/-- A printer prints what has no report at a span that runs backwards. -/
theorem Printer.isOk_print_iff (p : Printer) (r : Rendered) :
    (p.print r).isOk = true ↔ ∀ entry ∈ r.faults, entry.shown = true := by
  unfold print
  split
  · rename_i entry found
    have hidden := List.find?_some found
    simp only [Except.isOk, Except.toBool, Bool.false_eq_true, false_iff]
    intro all
    simp [all entry (List.mem_of_find?_eq_some found)] at hidden
  · rename_i none
    simpa [Except.isOk, Except.toBool] using none

/-- A conversion neither hides nor invents a report. What it gives is printed completely if and only if the
program is, an entry is reported for the one if and only if it is reported for the other, and a printer refuses
both or none. -/
theorem convert_keeps_reports (c : Converter) (program : Program) :
    ((c.convert program).1.render.isComplete = true ↔ program.render.isComplete = true) ∧
    (∀ entry, entry ∈ (c.convert program).1.render.faults ↔ entry ∈ program.render.faults) ∧
    (∀ p : Printer, (p.print (c.convert program).1.render).isOk = (p.print program.render).isOk) := by
  have entries (entry : Located Unprintable) :
      entry ∈ (c.convert program).1.render.faults ↔ entry ∈ program.render.faults := by
    rw [show (c.convert program).1.render.faults = _ from (Node.program (c.convert program).1).faults_render,
      show program.render.faults = _ from (Node.program program).faults_render, List.mem_map, List.mem_map]
    exact exists_congr fun gap => and_congr_left' (mem_gaps_walkStmts c.config program.body _ gap)
  refine ⟨?_, entries, fun p => ?_⟩
  · rw [Rendered.isComplete, Rendered.isComplete, List.isEmpty_iff, List.isEmpty_iff,
      List.eq_nil_iff_forall_not_mem, List.eq_nil_iff_forall_not_mem]
    exact forall_congr' fun entry => not_congr (entries entry)
  · rw [Bool.eq_iff_iff, Printer.isOk_print_iff, Printer.isOk_print_iff]
    exact forall_congr' fun entry => imp_congr_left (entries entry)

end IndexedLoop
