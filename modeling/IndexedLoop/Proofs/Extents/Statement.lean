import IndexedLoop.Proofs.Extents.Declaration
import IndexedLoop.Grammar.Statement

/-!
# Statements in their source

Of imports and exports nothing but their extent is kept. A statement that starts with a brace is read as a block
or as an object literal, and both ways keep to the source, so it does not matter which one counts.
-/

namespace IndexedLoop.Grammar

open Surface Parse

variable {src : List Symbol} {lo : Nat} {c : Cursor} {xs : List Node} {start : Place}

/-! ## Imports and exports -/

theorem finds_moduleName : Finds src moduleName fun _ => [] := by
  intro c lo near
  simp only [moduleName, yields_bind, yields_look]
  split
  · simp only [yields_bind, yields_accept, yields_pure]
    exact near.pass _
  · simp only [yields_bind, yields_accept, yields_pure]
    exact near.pass _
  · exact yields_failure _ _

theorem finds_importedName : Finds src importedName fun _ => [] := by
  intro c lo near
  simp only [importedName, yields_bind]
  refine (finds_moduleName near).mono fun isWord d h => ?_
  refine ((passes_tryWord _ _).skip h).mono fun isRenamed d h => ?_
  refine Yields.ite ?_ ?_
  · simp only [yields_bind, yields_pure]
    exact (finds_word _).skip h
  · simp only [yields_guard]
    exact fun _ => h

theorem finds_exportedName : Finds src exportedName fun _ => [] := by
  intro c lo near
  simp only [exportedName, yields_bind]
  refine (finds_moduleName near).mono fun isWord d h => ?_
  refine ((passes_tryWord _ _).skip h).mono fun isRenamed d h => ?_
  refine Yields.ite ?_ ((yields_pure _ _ _).mpr h)
  simp only [yields_bind, yields_pure]
  exact finds_moduleName.skip h

theorem yields_moduleNames {name : Parse Unit} (hn : Finds src name fun _ => []) (slot : Slot) (h : c.Read src lo []) :
    Yields (moduleNames name slot) c fun _ d => d.Read src lo [] := by
  have moduleNamesIn (n : List Symbol) {c : Cursor} (h : c.Read src lo []) :
      Yields (moduleNamesIn name slot n) c fun _ d => d.Read src lo [] := by
    induction n generalizing c with
    | nil => exact yields_failure _ _
    | cons x n ih =>
      simp only [Grammar.moduleNamesIn, yields_bind]
      refine ((passes_tryPunct _ _).skip h).mono fun isEnd d h => ?_
      refine Yields.ite ((yields_pure _ _ _).mpr h) ?_
      simp only [yields_bind]
      refine (hn.skip h).mono fun _ d h => ?_
      refine ((passes_tryPunct _ _).skip h).mono fun more d h => ?_
      exact Yields.ite (ih h) ((finds_expect _ _).skip h)
  simp only [moduleNames, yields_bind]
  refine ((passes_tryPunct _ _).skip h).mono fun isComma d h => ?_
  exact Yields.ite ((finds_expect _ _).skip h) (moduleNamesIn _ h)

theorem finds_fromSource : Finds src fromSource fun _ => [] := by
  intro c lo near
  simp only [fromSource, yields_bind]
  exact (finds_expectWord _ _ near).mono fun _ d h => (finds_string _).skip h

theorem finds_importNames : Finds src importNames fun _ => [] := by
  intro c lo near
  simp only [importNames, yields_bind]
  refine (passes_tryPunct _ _ near).mono fun isAll d passed => ?_
  refine Yields.ite ?_ ?_
  · simp only [yields_bind, yields_pure]
    exact (finds_expectWord _ _ passed.1).mono fun _ d h => (finds_word _).skip h
  · simp only [yields_bind]
    exact (finds_expect _ _ passed.1).mono fun _ d h => yields_moduleNames finds_importedName _ h

theorem finds_importClause : Finds src importClause fun _ => [] := by
  intro c lo near
  simp only [importClause, yields_bind, yields_look]
  split
  · simp only [yields_accept]
    exact near.pass _
  · simp only [yields_bind, yields_accept]
    refine ((passes_tryPunct _ _).skip (near.pass _)).mono fun hasMore d h => ?_
    refine Yields.ite ?_ (finds_fromSource.skip h)
    simp only [yields_bind]
    exact (finds_importNames.skip h).mono fun _ d h => finds_fromSource.skip h
  · simp only [yields_bind]
    exact (finds_importNames near).mono fun _ d h => finds_fromSource.skip h

variable {g : Level} (hg : g.Finds src)
include hg

theorem yields_importStatement (start_in : start.In src) (h : c.Read src start.offset []) :
    Yields (importStatement g start) c fun s d => d.Read src start.offset [.stmt s] := by
  simp only [importStatement, yields_bind]
  refine (finds_importClause.skip h).mono fun _ d h => ?_
  refine ((passes_tryWord _ _).skip h).mono fun hasAttributes d h => ?_
  refine Yields.ite ?_ ?_
  · simp only [yields_bind, yields_look, yields_extentFrom, yields_pure]
    have near := h.on.read.near
    refine (finds_expect _ _ near.tight).mono fun _ e opened => ?_
    refine (yields_objectTail hg near.start_in _ _ opened).mono fun _ e object => ?_
    refine (finds_semicolon.skip (h.later (object.lower near.lower))).mono fun _ d h => ?_
    exact h.node start_in rfl trivial
  · simp only [yields_bind, yields_extentFrom, yields_pure]
    exact (finds_semicolon.skip h).mono fun _ d h => h.node start_in rfl trivial

theorem yields_exportedDeclaration {other : Place → Bool → Parse Unit}
    (ho : ∀ (start : Place) (decorated : Bool) (d : Cursor), start.In src → d.Near src start.offset →
      Yields (other start decorated) d fun _ e => e.Read src start.offset [])
    (slot : Slot) (near : c.Near src lo) :
    Yields (exportedDeclaration g slot other) c fun _ d => d.Read src lo [] := by
  simp only [exportedDeclaration, yields_bind, yields_look]
  refine (passes_decorators hg near.tight).mono fun decorated d passed => ?_
  have behind := passed.1
  split
  · simp only [yields_bind, yields_guard, yields_accept, yields_pure]
    intro _
    refine (yields_declarationTail hg behind.start_in _ (behind.accept _)).mono fun _ e h => ?_
    exact h.clear.lower (near.lower.trans behind.lower)
  · exact (ho _ decorated d near.start_in behind).mono fun _ e h => h.lower near.lower

theorem yields_exportedDefinition (start_in : start.In src) (decorated : Bool) (near : c.Near src start.offset) :
    Yields (exportedDefinition g start decorated) c fun _ d => d.Read src start.offset [] := by
  simp only [exportedDefinition, yields_bind, yields_look, yields_guard, yields_pure]
  intro _
  refine (yields_definition hg start_in _ _ near).mono ?_
  rintro x d ⟨same, found⟩
  exact (yields_declare found).mono fun _ e h => same ▸ h.clear

theorem yields_exportedValue (start_in : start.In src) (decorated : Bool) (near : c.Near src start.offset) :
    Yields (exportedValue g start decorated) c fun _ d => d.Read src start.offset [] := by
  simp only [exportedValue, yields_bind, yields_look, yields_guard]
  intro _
  refine Yields.ite ?_ ?_
  · simp only [goesOn, yields_bind, yields_look, yields_pure]
    refine (yields_definition hg start_in _ _ near).mono ?_
    rintro x d ⟨same, found⟩
    refine Yields.ite ?_ ?_
    · simp only [yields_bind]
      refine (yields_toOperand found).mono fun e d h => ?_
      refine (yields_exprFrom hg _ (same ▸ h)).mono fun _ d h => ?_
      exact finds_semicolon.skip h.clear
    · simp only [yields_bind, yields_pure]
      exact (yields_declare found).mono fun _ e h => same ▸ h.clear
  · refine Yields.ite ?_ ?_
    · simp only [yields_bind, yields_accept]
      refine (yields_classExpr hg start_in _ (near.pass _)).mono fun e d h => ?_
      refine (yields_exprFrom hg _ h).mono fun _ d h => ?_
      exact finds_semicolon.skip h.clear
    · simp only [yields_bind]
      exact (hg.expr _ near).mono fun _ d h => finds_semicolon.skip h.clear

theorem yields_exportStatement (start_in : start.In src) (decorated : Bool) (h : c.Read src start.offset []) :
    Yields (exportStatement g start decorated) c fun s d => d.Read src start.offset [.stmt s] := by
  have whole {d : Cursor} (h : d.Read src start.offset []) :
      d.Read src start.offset [.stmt (.other ⟨⟨start, d.place⟩, .exportStatement⟩)] := h.node start_in rfl trivial
  simp only [exportStatement, yields_bind, yields_look]
  split
  · simp only [yields_bind, yields_guard, yields_accept]
    intro _
    refine ((passes_tryWord _ _).skip (h.accept _)).mono fun isRenamed d h => ?_
    refine Yields.ite ?_ ?_
    · simp only [yields_bind, yields_extentFrom, yields_pure]
      refine (finds_moduleName.skip h).mono fun _ d h => (finds_fromSource.skip h).mono fun _ d h => ?_
      exact (finds_semicolon.skip h).mono fun _ d => whole
    · simp only [yields_bind, yields_extentFrom, yields_pure]
      exact (finds_fromSource.skip h).mono fun _ d h => (finds_semicolon.skip h).mono fun _ d => whole
  · simp only [yields_bind, yields_guard, yields_accept, yields_look]
    intro _
    refine (yields_moduleNames finds_exportedName _ (h.accept _)).mono fun _ d h => ?_
    refine Yields.ite ?_ ?_
    · simp only [yields_bind, yields_extentFrom, yields_pure]
      exact (finds_fromSource.skip h).mono fun _ d h => (finds_semicolon.skip h).mono fun _ d => whole
    · simp only [yields_bind, yields_extentFrom, yields_pure]
      exact (finds_semicolon.skip h).mono fun _ d => whole
  · simp only [yields_bind, yields_accept, yields_extentFrom, yields_pure]
    exact (yields_exportedDeclaration hg (fun _ decorated _ start_in => yields_exportedValue hg start_in decorated)
      _ (h.accept _).near).mono fun _ d => whole
  · simp only [yields_bind, yields_extentFrom, yields_pure]
    exact (yields_exportedDeclaration hg (fun _ decorated _ start_in => yields_exportedDefinition hg start_in decorated)
      _ h.near).mono fun _ d => whole

/-! ## Expressions and braces -/

theorem yields_expressionStatementFrom {first : Surface.Expr} (h : c.Read src lo [.expr first])
    (single : first.isSequence = false) :
    Yields (expressionStatementFrom g first) c fun s d => d.Read src lo [.stmt s] := by
  simp only [expressionStatementFrom, yields_bind, yields_look, yields_extentFrom, yields_pure]
  refine (yields_sequenceFrom hg _ h single).mono fun e d h => ?_
  exact (finds_semicolon.skip h).mono fun _ d' h => h.extend rfl rfl trivial

theorem finds_expressionStatement : Finds src (expressionStatement g) fun s => [.stmt s] := by
  intro c lo near
  simp only [expressionStatement, yields_bind]
  refine ((finds_expr hg _ near).and (single_expr _ c)).mono ?_
  rintro e d ⟨h, single⟩
  exact yields_expressionStatementFrom hg h single

theorem yields_operandStatement {first : Surface.Expr} (h : c.Read src lo [.expr first])
    (single : first.isSequence = false) :
    Yields (operandStatement g first) c fun s d => d.Read src lo [.stmt s] := by
  simp only [operandStatement, yields_bind]
  refine ((yields_exprFrom hg _ h).and (single_exprFrom _ single c)).mono ?_
  rintro e d ⟨h, single⟩
  exact yields_expressionStatementFrom hg h single

theorem finds_blockStatement (alone : Bool) : Finds src (blockStatement g alone) fun s => [.stmt s] := by
  intro c lo near
  simp only [blockStatement, yields_bind, yields_look]
  refine (finds_blockWith hg _ _ near).mono fun b d h => ?_
  have block : d.Read src lo [.stmt (.block b)] := h.wrap rfl rfl trivial
  split
  · next extent =>
    simp only [yields_bind, yields_get]
    refine Yields.ite ?_ ((yields_pure _ _ _).mpr block)
    have lies := lined_singleton.mp h.nodes
    have object : d.Read src lo [.expr (.object extent [])] :=
      ⟨h.on, lined_singleton.mpr (Node.lies_iff.mpr ⟨lies.extent, trivial, lies.parts⟩)⟩
    exact yields_operandStatement hg object rfl
  · simp only [yields_bind, yields_guard, yields_pure]
    exact fun _ _ => block

theorem finds_objectStatement : Finds src (objectStatement g) fun s => [.stmt s] := by
  intro c lo near
  simp only [objectStatement, yields_bind]
  refine ((finds_braced hg _ near).and (single_braced _ c)).mono ?_
  rintro e d ⟨h, single⟩
  exact yields_expressionStatementFrom hg h single

theorem yields_braceStatement (near : c.Near src lo) (alone : Bool) (l : Lexeme) :
    Yields (braceStatement g alone l) c fun s d => d.Read src lo [.stmt s] := by
  have block := finds_blockStatement hg alone near
  have object := finds_objectStatement hg near
  simp only [braceStatement]
  split
  · exact block
  · exact object
  · exact object.contest block
  · exact block.contest object

/-! ## Branches -/

theorem yields_ifStatement (start_in : start.In src) (alone : Bool) (h : c.Read src start.offset []) :
    Yields (ifStatement g alone start) c fun s d => d.Read src start.offset [.stmt s] := by
  simp only [ifStatement, yields_bind, yields_tryWord]
  refine ((finds_condition hg).after h).mono fun test d h => ?_
  refine (((hg.stmt _).after h).and (hg.settles _ d)).mono fun consequent d found => ?_
  obtain ⟨h, settled⟩ := found
  split
  · next hasElse =>
    have closed : consequent.endsInOpenIf = false :=
      Bool.eq_false_iff.mpr fun isOpen => absurd (settled isOpen) (by simp [hasElse])
    simp only [if_true, yields_bind, yields_extentFrom, yields_pure]
    exact ((hg.stmt _).after (h.accept _)).mono fun alternate d h => h.node start_in rfl closed
  · simp only [Bool.false_eq_true, if_false, yields_bind, yields_extentFrom, yields_pure]
    exact h.node start_in rfl trivial

theorem yields_caseBodyIn (n : List Symbol) (h : c.Read src lo []) :
    Yields (caseBodyIn g n) c fun _ d => d.Read src lo [] := by
  induction n generalizing c with
  | nil => exact yields_failure _ _
  | cons x n ih =>
    simp only [caseBodyIn, yields_bind, yields_look]
    refine Yields.ite ((yields_pure _ _ _).mpr h) ?_
    simp only [yields_bind]
    exact ((hg.stmt _).skip h).mono fun _ d h => ih h

theorem yields_casesIn (n : List Symbol) (h : c.Read src lo []) :
    Yields (casesIn g n) c fun _ d => d.Read src lo [] := by
  induction n generalizing c with
  | nil => exact yields_failure _ _
  | cons x n ih =>
    simp only [casesIn, yields_bind, yields_look, yields_accept]
    have h := h.accept .plain
    refine Yields.ite ((yields_pure _ _ _).mpr h) ?_
    refine Yields.ite ?_ ?_
    · simp only [yields_bind, yields_rounds]
      refine ((finds_enclosed hg _ _).skip h).mono fun _ d h => ?_
      exact (yields_caseBodyIn hg _ h).mono fun _ d h => ih h
    · simp only [yields_bind, yields_guard, yields_rounds]
      intro _
      refine ((finds_expect _ _).skip h).mono fun _ d h => ?_
      exact (yields_caseBodyIn hg _ h).mono fun _ d h => ih h

theorem yields_switchStatement (start_in : start.In src) (h : c.Read src start.offset []) :
    Yields (switchStatement g start) c fun s d => d.Read src start.offset [.stmt s] := by
  simp only [switchStatement, yields_bind, yields_rounds, yields_extentFrom, yields_pure]
  refine ((finds_condition hg).skip h).mono fun _ d h => ?_
  refine ((finds_expect _ _).skip h).mono fun _ d h => ?_
  exact (yields_casesIn hg _ h).mono fun _ d h => h.node start_in rfl trivial

theorem yields_tryStatement (start_in : start.In src) (h : c.Read src start.offset []) :
    Yields (tryStatement g start) c fun s d => d.Read src start.offset [.stmt s] := by
  have body {d : Cursor} (h : d.Read src start.offset []) :
      Yields (block g .plain) d fun _ d => d.Read src start.offset [] := (finds_block hg _).skip h
  have closing {d : Cursor} (h : d.Read src start.offset []) :
      Yields (do
        if ← tryWord "finally" .plain then
          let _ ← block g .plain
        return .other ⟨← extentFrom start, .tryStatement⟩) d fun s d => d.Read src start.offset [.stmt s] := by
    rw [yields_bind]
    refine ((passes_tryWord _ _).skip h).mono fun hasFinally d h => ?_
    refine Yields.ite ?_ ?_
    · simp only [yields_bind, yields_extentFrom, yields_pure]
      exact (body h).mono fun _ d h => h.node start_in rfl trivial
    · simp only [yields_bind, yields_extentFrom, yields_pure]
      exact h.node start_in rfl trivial
  rw [tryStatement, yields_bind]
  refine (body h).mono fun _ d h => ?_
  rw [yields_bind]
  refine ((passes_tryWord _ _).skip h).mono fun hasCatch d h => ?_
  refine Yields.ite ?_ (closing h)
  rw [yields_bind]
  refine ((passes_tryPunct _ _).skip h).mono fun isBound d h => ?_
  refine Yields.ite ?_ ?_
  · rw [yields_bind]
    refine ((finds_binding hg _).skip h).mono fun _ d h => ?_
    rw [yields_bind]
    refine ((finds_expect _ _).skip h).mono fun _ d h => ?_
    rw [yields_bind]
    exact (body h).mono fun _ d => closing
  · rw [yields_bind]
    exact (body h).mono fun _ d => closing

theorem yields_withStatement (start_in : start.In src) (alone : Bool) (h : c.Read src start.offset []) :
    Yields (withStatement g alone start) c fun s d => d.Read src start.offset [.stmt s] := by
  simp only [withStatement, yields_bind, yields_extentFrom, yields_pure]
  refine ((finds_condition hg).skip h).mono fun _ d h => ?_
  exact ((hg.stmt _).skip h).mono fun _ d h => h.node start_in rfl trivial

/-! ## Jumps -/

theorem yields_returnStatement (start_in : start.In src) (h : c.Read src start.offset []) :
    Yields (returnStatement g start) c fun s d => d.Read src start.offset [.stmt s] := by
  simp only [returnStatement, yields_bind, yields_look]
  refine Yields.ite ?_ ?_
  · simp only [yields_bind, yields_accept, yields_extentFrom, yields_pure]
    exact (h.accept _).node start_in rfl trivial
  · simp only [yields_bind, yields_extentFrom, yields_pure]
    refine ((finds_expressions hg _).after h).mono fun e d h => ?_
    exact (finds_semicolon.skip h).mono fun _ d h => h.node start_in rfl trivial

theorem yields_throwStatement (start_in : start.In src) (h : c.Read src start.offset []) :
    Yields (throwStatement g start) c fun s d => d.Read src start.offset [.stmt s] := by
  simp only [throwStatement, yields_bind, yields_extentFrom, yields_pure]
  refine ((finds_expressions hg _).after h).mono fun e d h => ?_
  exact (finds_semicolon.skip h).mono fun _ d h => h.node start_in rfl trivial

omit hg in
theorem yields_jumpTail (h : c.Read src lo []) : Yields jumpTail c fun _ d => d.Read src lo [] := by
  simp only [jumpTail, yields_bind, yields_pure]
  exact (yields_tryAnyWord _ h).mono fun _ d h => finds_semicolon.skip h.clear

omit hg in
theorem yields_breakStatement (start_in : start.In src) (h : c.Read src start.offset []) :
    Yields (breakStatement start) c fun s d => d.Read src start.offset [.stmt s] := by
  simp only [breakStatement, yields_bind, yields_extentFrom, yields_pure]
  refine (yields_jumpTail h).mono fun labelled d h => ?_
  split <;> exact h.node start_in rfl trivial

omit hg in
theorem yields_continueStatement (start_in : start.In src) (h : c.Read src start.offset []) :
    Yields (continueStatement start) c fun s d => d.Read src start.offset [.stmt s] := by
  simp only [continueStatement, yields_bind, yields_extentFrom, yields_pure]
  refine (yields_jumpTail h).mono fun labelled d h => ?_
  split <;> exact h.node start_in rfl trivial

omit hg in
theorem yields_debuggerStatement (start_in : start.In src) (h : c.Read src start.offset []) :
    Yields (debuggerStatement start) c fun s d => d.Read src start.offset [.stmt s] := by
  simp only [debuggerStatement, yields_bind, yields_extentFrom, yields_pure]
  exact (finds_semicolon.skip h).mono fun _ d h => h.node start_in rfl trivial

/-! ## Statements -/

theorem yields_keywordStatement (near : c.Near src lo) (alone : Bool) {p : Parse Surface.Stmt}
    (found : keywordStatement? g alone c.lexeme = some p) : Yields p c fun s d => d.Read src lo [.stmt s] := by
  have behind {slot : Slot} {tail : Parse Surface.Stmt}
      (h : Yields tail (c.lexeme.stop.facing slot) fun s d => d.Read src c.lexeme.start.place.offset [.stmt s])
      (found : (some do
        accept c.lexeme slot
        tail) = some p) : Yields p c fun s d => d.Read src lo [.stmt s] := by
    cases found
    simp only [yields_bind, yields_accept]
    exact h.mono fun s d h => h.lower near.lower
  have start_in := near.start_in
  have h (slot : Slot) := near.accept slot
  unfold keywordStatement? at found
  split at found
  · exact behind (yields_ifStatement hg start_in alone (h _)) found
  · exact behind (yields_forStatement hg start_in alone (h _)) found
  · exact behind (yields_whileStatement hg start_in alone (h _)) found
  · exact behind (yields_doStatement hg start_in (h _)) found
  · exact behind (yields_switchStatement hg start_in (h _)) found
  · exact behind (yields_tryStatement hg start_in (h _)) found
  · exact behind (yields_withStatement hg start_in alone (h _)) found
  · exact behind (yields_returnStatement hg start_in (h _)) found
  · exact behind (yields_throwStatement hg start_in (h _)) found
  · exact behind (yields_breakStatement start_in (h _)) found
  · exact behind (yields_continueStatement start_in (h _)) found
  · exact behind (yields_debuggerStatement start_in (h _)) found
  · cases found

theorem yields_labelledStatement (near : c.Near src lo) (alone : Bool) :
    Yields (labelledStatement g alone c.lexeme) c fun s d => d.Read src lo [.stmt s] := by
  simp only [labelledStatement, lose, yields_bind, yields_accept, yields_modify, yields_extentFrom, yields_pure]
  refine ((finds_expect _ _).skip (near.accept _)).mono fun _ d h => ?_
  refine ((hg.stmt _).skip ((Cursor.read_losses _).mpr h)).mono fun _ d h => ?_
  exact near.node h rfl trivial

theorem yields_definitionStatement (start_in : start.In src) (alone : Bool) (near : c.Near src start.offset) :
    Yields (definitionStatement g alone start c.lexeme) c fun s d => d.Read src start.offset [.stmt s] := by
  simp only [definitionStatement, goesOn, yields_bind, yields_look, yields_pure]
  refine (yields_definition hg start_in _ _ near).mono ?_
  rintro x d ⟨rfl, found⟩
  refine Yields.ite ?_ (yields_declare found)
  simp only [yields_bind]
  refine ((yields_toOperand found).and (single_toOperand found _)).mono ?_
  rintro e d ⟨h, single⟩
  exact yields_operandStatement hg h single

theorem yields_decoratedStatement (start_in : start.In src) (alone : Bool) (near : c.Near src start.offset) :
    Yields (decoratedStatement g alone start) c fun s d => d.Read src start.offset [.stmt s] := by
  simp only [decoratedStatement, yields_bind, yields_look]
  refine (passes_decorators hg near).mono fun _ d passed => ?_
  have near := passed.1
  refine Yields.ite ?_ (Yields.ite (yields_definitionStatement hg start_in alone near) ?_)
  · simp only [yields_bind, yields_accept]
    exact yields_exportStatement hg start_in true (near.pass _)
  · simp only [yields_bind, yields_guard, yields_accept]
    intro _
    refine ((yields_classExpr hg start_in _ (near.pass _)).and (single_classExpr _ _)).mono ?_
    rintro e d ⟨h, single⟩
    exact yields_operandStatement hg h single

theorem yields_wordStatement (near : c.Near src lo) (alone : Bool) (w : String) :
    Yields (wordStatement g alone c.lexeme w) c fun s d => d.Read src lo [.stmt s] := by
  have start_in := near.start_in
  have lower {s : Surface.Stmt} {d : Cursor} (h : d.Read src c.lexeme.start.place.offset [.stmt s]) :
      d.Read src lo [.stmt s] := h.lower near.lower
  simp only [wordStatement]
  refine Yields.ite (yields_labelledStatement hg near alone) (Yields.ite ?_ (Yields.ite ?_ (Yields.ite ?_ ?_)))
  · simp only [yields_bind, yields_accept]
    exact (yields_importStatement hg start_in (near.accept _)).mono fun s d => lower
  · simp only [yields_bind, yields_accept]
    exact (yields_exportStatement hg start_in false (near.accept _)).mono fun s d => lower
  · exact (yields_definitionStatement hg start_in alone near.tight).mono fun s d => lower
  · split
    · simp only [yields_bind, yields_accept, yields_pure]
      refine (yields_declarationTail hg start_in _ (near.accept _)).mono fun x d h => ?_
      exact lower (h.wrap rfl rfl trivial)
    · exact finds_expressionStatement hg near

theorem finds_statement (alone : Bool) : Finds src (statement g alone) fun s => [.stmt s] := by
  intro c lo near
  simp only [statement, yields_bind, yields_look]
  split
  · exact yields_braceStatement hg near alone _
  · simp only [yields_bind, yields_accept, yields_pure]
    exact near.leaf _ rfl rfl trivial
  · exact (yields_decoratedStatement hg near.start_in alone near.tight).mono fun s d h => h.lower near.lower
  · next w _ =>
    cases found : keywordStatement? g alone c.lexeme with
    | some p => exact yields_keywordStatement hg near alone found
    | none => exact yields_wordStatement hg near alone w
  · exact finds_expressionStatement hg near

end IndexedLoop.Grammar
