import IndexedLoop.Proofs.Extents.Expression
import IndexedLoop.Grammar.Loop

/-!
# Declarations and loops in their source
-/

namespace IndexedLoop

open Surface Parse

namespace Surface

variable {src : List Symbol} {lo hi : Nat}

@[simp]
theorem Binding.extent_node (b : Binding) : b.node.extent = b.extent := by
  cases b <;> rfl

theorem Expr.lies_declared {e : Expr} {b : Binding} (h : (Node.expr e).Lies src lo hi)
    (declared : e.declared? = some b) :
    b.node.Lies src lo hi := by
  unfold Expr.declared? at declared
  split at declared
  · cases declared
    exact h.name
  · exact Expr.lies_param h declared
  · exact Expr.lies_param h declared
  · cases declared

end Surface

namespace Grammar

variable {src : List Symbol} {lo : Nat} {c : Cursor} {xs : List Node} {start : Place} {g : Level} (hg : g.Finds src)
include hg

/-! ## Variables -/

theorem finds_binding (slot : Slot) : Finds src (binding g slot) fun b => [b.node] := by
  intro c lo near
  have pattern {e : Surface.Expr} {b : Binding} {d : Cursor} (declared : e.declared? = some b)
      (h : d.Read src c.lexeme.start.place.offset [.expr e]) : d.Read src lo [b.node] := by
    have lies := Expr.lies_declared (lined_singleton.mp h.nodes) declared
    exact ⟨h.on, lined_singleton.mpr (lies.mono near.lower le_rfl)⟩
  simp only [binding]
  rw [yields_bind, yields_look]
  split
  · next text token =>
    simp only [yields_bind, yields_accept, yields_pure]
    exact near.name token _
  · next token =>
    simp only [settle, yields_bind, yields_accept, yields_modify]
    have opens := near.on.faces_punct token (by decide)
    refine (yields_arrayTail hg near.start_in _ (near.accept _) rfl opens).mono fun e d h => ?_
    split
    · next b declared => exact (yields_pure _ _ _).mpr ((Cursor.read_pending _).mpr (pattern declared h))
    · exact yields_failure _ _
  · simp only [settle, yields_bind, yields_accept, yields_modify]
    refine (yields_objectTail hg near.start_in _ _ (near.accept _)).mono fun e d h => ?_
    split
    · next b declared => exact (yields_pure _ _ _).mpr ((Cursor.read_pending _).mpr (pattern declared h))
    · exact yields_failure _ _
  · exact yields_failure _ _

theorem yields_initializer (h : c.Read src lo xs) :
    Yields (initializer g) c fun init d => d.Read src lo (xs ++ init.toList.map .expr) := by
  simp only [initializer, yields_bind]
  refine ((passes_tryPunct _ _).skip h).mono fun isInitialized d h => ?_
  refine Yields.ite ?_ ?_
  · simp only [yields_bind, yields_pure]
    exact (hg.expr _).after h
  · simpa using h

omit hg in
/-- What is bound and the initial value make up a variable. -/
theorem read_declarator {target : Binding} (init : Option Surface.Expr)
    (h : c.Read src lo (target.node :: init.toList.map .expr)) :
    c.Read src lo [.declarator (.mk ⟨target.extent.start, c.place⟩ target init)] :=
  h.extend rfl (by rw [Binding.extent_node]; rfl) trivial

theorem finds_declarator : Finds src (declarator g) fun d => [.declarator d] := by
  intro c lo near
  simp only [declarator, yields_bind, yields_extentFrom, yields_pure]
  refine (finds_binding hg _ near).mono fun target d h => ?_
  exact (yields_initializer hg h).mono fun init d h => read_declarator init h

theorem finds_declaratorsIn (n : List Symbol) : Finds src (declaratorsIn g n) fun ds => ds.map .declarator := by
  induction n with
  | nil => exact fun _ _ _ => yields_failure _ _
  | cons x n ih =>
    intro c lo near
    simp only [declaratorsIn, yields_bind]
    refine (finds_declarator hg near).mono fun first d h => ?_
    refine ((passes_tryPunct _ _).skip h).mono fun more d h => ?_
    refine Yields.ite ?_ ((yields_pure _ _ _).mpr h)
    simp only [yields_bind, yields_pure]
    exact ih.after h

omit hg in
theorem yields_declaratorsIn_ne_nil (n : List Symbol) : Yields (declaratorsIn g n) c fun ds _ => ds ≠ [] := by
  cases n with
  | nil => exact yields_failure _ _
  | cons x n =>
    simp only [declaratorsIn, yields_bind]
    intro first _ _ more _ _
    refine Yields.ite ?_ ((yields_pure _ _ _).mpr (List.cons_ne_nil _ _))
    simp only [yields_bind, yields_pure]
    exact fun _ _ _ => List.cons_ne_nil _ _

theorem yields_declarationTail (start_in : start.In src) (kind : DeclKind) (h : c.Read src start.offset []) :
    Yields (declarationTail g start kind) c fun x d => d.Read src start.offset [.declaration x] := by
  simp only [declarationTail, yields_bind, yields_rounds, yields_extentFrom, yields_pure]
  refine (((finds_declaratorsIn hg _).after h).and (yields_declaratorsIn_ne_nil _)).mono fun ds d found => ?_
  exact (finds_semicolon.skip found.1).mono fun _ d h => h.node start_in rfl found.2

/-! ## Functions and classes -/

omit hg in
/-- Behind a definition, and behind more text, it is a statement and an operand of the source. -/
structure Definition.Found (src : List Symbol) (x : Definition) (c : Cursor) : Prop where
  on : c.On src
  stmt : ∀ d : Cursor, d.Read src c.offset [] → d.Read src x.start.offset [.stmt (x.stmt ⟨x.start, d.place⟩)]
  operand : ∀ d : Cursor, d.Read src c.offset [] → d.Read src x.start.offset [.expr (x.operand ⟨x.start, d.place⟩)]
  single : ∀ extent, (x.operand extent).isSequence = false

theorem yields_functionDefinition (start_in : start.In src) (isAsync : Bool) (slot : Slot)
    (h : c.Read src start.offset []) :
    Yields (functionDefinition g start isAsync slot) c fun x d => x.start = start ∧ x.Found src d := by
  simp only [functionDefinition, yields_bind, yields_pure]
  refine ((passes_tryPunct _ _).skip h).mono fun isGenerator d h => ?_
  refine ((finds_word _).after h).mono fun name d h => ?_
  refine ((finds_functionTail hg _).after h).mono fun fn d h => ?_
  refine ⟨trivial, h.on, fun e later => ?_, fun e later => ?_, isSequence_functionExprOf _ _ _⟩
  · exact (h.later later).node start_in rfl trivial
  · exact read_functionExprOf start_in _ (h.later later)

theorem yields_classDefinition (start_in : start.In src) (slot : Slot) (h : c.Read src start.offset []) :
    Yields (classDefinition g start slot) c fun x d => x.start = start ∧ x.Found src d := by
  simp only [classDefinition, yields_bind, yields_pure]
  refine ((finds_word _).skip h).mono fun _ d h => ?_
  refine (yields_classTail hg slot h).mono fun _ d h => ?_
  refine ⟨trivial, h.on, fun e later => ?_, fun e later => ?_, fun _ => rfl⟩
  · exact (h.later later).node start_in rfl trivial
  · exact (h.later later).node start_in rfl trivial

theorem yields_definition (start_in : start.In src) (asyncSlot slot : Slot) (near : c.Near src start.offset) :
    Yields (definition g start c.lexeme asyncSlot slot) c fun x d => x.start = start ∧ x.Found src d := by
  simp only [definition]
  refine Yields.ite ?_ (Yields.ite ?_ ?_)
  · simp only [yields_bind, yields_accept]
    exact yields_functionDefinition hg start_in false slot (near.pass _)
  · simp only [yields_bind, yields_accept]
    exact yields_functionDefinition hg start_in true slot ((near.pass asyncSlot).accept _)
  · simp only [yields_bind, yields_guard, yields_accept]
    exact fun _ => yields_classDefinition hg start_in slot (near.pass _)

omit hg in
theorem yields_declare {x : Definition} (h : x.Found src c) :
    Yields x.declare c fun s d => d.Read src x.start.offset [.stmt s] := by
  simp only [Definition.declare, yields_bind, yields_extentFrom, yields_pure]
  exact ((passes_tryInserted _).skip h.on.read).mono fun _ d later => h.stmt d later

omit hg in
theorem yields_toOperand {x : Definition} (h : x.Found src c) :
    Yields x.toOperand c fun e d => d.Read src x.start.offset [.expr e] := by
  simp only [Definition.toOperand, yields_bind, yields_extentFrom, yields_pure]
  exact h.operand c h.on.read

omit hg in
theorem single_toOperand {x : Definition} (h : x.Found src c) : Single x.toOperand :=
  single_bind fun extent => single_pure (h.single extent)

/-! ## Headers of loops -/

theorem finds_condition : Finds src (condition g) fun e => [.expr e] := by
  intro c lo near
  simp only [condition, yields_bind]
  exact (finds_expect _ _ near).mono fun _ d h => (finds_enclosed hg _ _).after h

omit hg in
/-- What is kept of a header. -/
def Header.nodes : Header → List Node
  | .each => []
  | .clauses init test update => init.toList.map ForInit.node ++ test.toList.map .expr ++ update.toList.map .expr

theorem finds_eachTail : Finds src (eachTail g) Header.nodes := by
  intro c lo near
  simp only [eachTail, yields_bind, yields_look, yields_guard, yields_accept, yields_pure]
  exact fun _ => (finds_enclosed hg _ _).skip (near.pass _)

theorem finds_clause (close : String) : Finds src (clause g close) fun e => e.toList.map .expr := by
  intro c lo near
  simp only [clause, yields_bind, yields_look]
  refine Yields.ite ?_ ?_
  · simp only [yields_bind, yields_accept, yields_pure]
    exact near.pass _
  · simp only [yields_bind, yields_pure]
    exact finds_enclosed hg _ _ near

theorem yields_clausesTail (init : Option Surface.ForInit) (h : c.Read src lo (init.toList.map ForInit.node)) :
    Yields (clausesTail g init) c fun x d => d.Read src lo x.nodes := by
  simp only [clausesTail, yields_bind, yields_pure]
  refine ((finds_clause hg _).after h).mono fun test d h => ?_
  exact (finds_clause hg _).after h

theorem yields_declarationHeader (start_in : start.In src) (kind : DeclKind) {first : Surface.Declarator}
    (h : c.Read src start.offset [.declarator first]) :
    Yields (declarationHeader g start kind first) c fun x d => d.Read src start.offset x.nodes := by
  have rest (more : List Surface.Declarator) {c : Cursor}
      (h : c.Read src start.offset (.declarator first :: more.map .declarator)) :
      Yields (do
        semicolon
        let declaration : Surface.Declaration := .mk (← extentFrom start) kind (first :: more)
        clausesTail g (some (.declaration declaration))) c fun x d => d.Read src start.offset x.nodes := by
    simp only [yields_bind, yields_extentFrom]
    refine (finds_semicolon.skip h).mono fun _ d h => ?_
    exact yields_clausesTail hg (some (.declaration _)) (h.node start_in rfl (List.cons_ne_nil _ _))
  simp only [declarationHeader]
  rw [yields_bind]
  refine ((passes_tryPunct _ _).skip h).mono fun hasMore d h => ?_
  split
  · rw [yields_bind]
    exact ((finds_declaratorsIn hg _).after h).mono fun more d h => rest more h
  · rw [pure_bind]
    exact rest [] h

theorem yields_initializedOver (k : Context) (h : c.Read src lo []) :
    Yields (initializedOver g k) c fun x d => d.Read src lo x.nodes := by
  simp only [initializedOver, yields_bind, yields_look, yields_guard]
  refine ((hg.unary _ _).after h).mono fun first d h => ?_
  exact (yields_chainFrom hg k _ h).mono fun _ d h _ => (finds_eachTail hg).after h.clear

theorem yields_varHeader (start_in : start.In src) (isAwait : Bool) (h : c.Read src start.offset []) :
    Yields (varHeader g isAwait start) c fun x d => d.Read src start.offset x.nodes := by
  simp only [varHeader, yields_bind, yields_look]
  refine ((finds_binding hg _).after h).mono fun target d h => ?_
  refine Yields.ite ?_ (Yields.ite ?_ ?_)
  · simp only [yields_bind, yields_accept]
    refine Yields.orElse ?_ (yields_initializedOver hg _ (h.clear.accept _))
    simp only [yields_bind, yields_look]
    refine ((hg.expr _).after (h.accept _)).mono fun init d h => ?_
    refine Yields.ite ((finds_eachTail hg).after h.clear) ?_
    simp only [yields_bind, yields_guard, yields_extentFrom]
    intro _
    exact yields_declarationHeader hg start_in _ (read_declarator (some init) h)
  · exact (finds_eachTail hg).after h.clear
  · simp only [yields_bind, yields_guard]
    intro _
    exact yields_declarationHeader hg start_in _ (h.wrap (by rw [Binding.extent_node]; rfl) rfl trivial)

theorem yields_lexicalHeader (start_in : start.In src) (isAwait : Bool) (kind : DeclKind)
    (h : c.Read src start.offset []) :
    Yields (lexicalHeader g isAwait start kind) c fun x d => d.Read src start.offset x.nodes := by
  simp only [lexicalHeader]
  rw [yields_bind]
  refine ((finds_binding hg _).after h).mono fun target d h => ?_
  refine Yields.orElse ?_ ?_
  · simp only [yields_bind]
    exact ((passes_tryInserted _).skip h.clear).mono fun _ d h => (finds_eachTail hg).after h
  · simp only [yields_bind, yields_guard, yields_extentFrom]
    intro _
    refine (yields_initializer hg h).mono fun init d h => ?_
    exact yields_declarationHeader hg start_in kind (read_declarator _ h)

theorem finds_operandHeader (isAwait : Bool) : Finds src (operandHeader g isAwait) Header.nodes := by
  intro c lo near
  simp only [operandHeader]
  rw [yields_bind]
  refine ((hg.unary _ _ near).and (hg.single_unary _ _ c)).mono ?_
  rintro first d ⟨h, single⟩
  refine Yields.orElse ?_ ?_
  · simp only [settle, yields_bind, yields_guard]
    intro _
    refine Yields.ite ?_ ?_
    · simp only [yields_bind, yields_face, yields_modify]
      exact (finds_eachTail hg).after ((Cursor.read_pending _).mpr ((Cursor.read_facing _).mpr h.clear))
    · simp only [yields_bind, yields_modify]
      exact (finds_eachTail hg).after ((Cursor.read_pending _).mpr h.clear)
  · simp only [yields_bind, yields_guard]
    intro _
    refine ((yields_chainFrom hg _ _ h).and (single_chainFrom _ _ single _)).mono ?_
    rintro test d ⟨h, single⟩
    refine ((yields_conditionalFrom hg _ h).and (single_conditionalFrom _ single _)).mono ?_
    rintro e d ⟨h, single⟩
    refine (yields_sequenceFrom hg _ h single).mono fun e d h => ?_
    refine ((finds_expect _ _).skip h).mono fun _ d h => ?_
    exact yields_clausesTail hg (some (.expression e)) h

theorem finds_header (isAwait : Bool) : Finds src (header g isAwait) Header.nodes := by
  intro c lo near
  have lower {x : Header} {d : Cursor} (h : d.Read src c.lexeme.start.place.offset x.nodes) : d.Read src lo x.nodes :=
    h.lower near.lower
  have declares (kind : DeclKind) : Yields (do
      accept c.lexeme .plain
      lexicalHeader g isAwait c.lexeme.start.place kind) c fun x d => d.Read src lo x.nodes := by
    simp only [yields_bind, yields_accept]
    exact (yields_lexicalHeader hg near.start_in isAwait kind (near.accept _)).mono fun x d => lower
  simp only [header]
  rw [yields_bind, yields_look]
  split
  · simp only [yields_bind, yields_accept]
    exact (yields_varHeader hg near.start_in isAwait (near.accept _)).mono fun x d => lower
  · exact Yields.ite ((declares _).orElse (finds_operandHeader hg isAwait near)) (declares _)
  · refine Yields.ite ?_ (finds_operandHeader hg isAwait near)
    simp only [yields_bind, yields_accept]
    exact yields_clausesTail hg none (near.pass _)

/-! ## Loops -/

theorem yields_forStatement (start_in : start.In src) (alone : Bool) (h : c.Read src start.offset []) :
    Yields (forStatement g alone start) c fun s d => d.Read src start.offset [.stmt s] := by
  simp only [forStatement, yields_bind]
  refine ((passes_tryWord _ _).skip h).mono fun isAwait d h => ?_
  refine ((finds_expect _ _).skip h).mono fun _ d h => ?_
  refine ((finds_header hg isAwait).after h).mono fun x d h => ?_
  refine ((hg.stmt _).after h).mono fun body d h => ?_
  simp only [yields_extentFrom]
  split
  · exact (yields_pure _ _ _).mpr (h.clear.node start_in rfl trivial)
  · exact (yields_pure _ _ _).mpr (h.node start_in rfl trivial)

theorem yields_whileStatement (start_in : start.In src) (alone : Bool) (h : c.Read src start.offset []) :
    Yields (whileStatement g alone start) c fun s d => d.Read src start.offset [.stmt s] := by
  simp only [whileStatement, yields_bind, yields_extentFrom, yields_pure]
  refine ((finds_condition hg).after h).mono fun test d h => ?_
  exact ((hg.stmt _).after h).mono fun body d h => h.node start_in rfl trivial

theorem yields_doStatement (start_in : start.In src) (h : c.Read src start.offset []) :
    Yields (doStatement g start) c fun s d => d.Read src start.offset [.stmt s] := by
  simp only [doStatement, yields_bind, yields_face, yields_look]
  refine ((hg.stmt _).skip h).mono fun _ d h => ?_
  refine ((finds_expectWord _ _).skip h).mono fun _ d h => ?_
  refine ((finds_condition hg).skip h).mono fun _ d h => ?_
  have faced := (Cursor.read_facing .ending).mpr h
  refine Yields.ite ?_ ?_
  · simp only [yields_bind, yields_accept, yields_extentFrom, yields_pure]
    exact (faced.accept _).node start_in rfl trivial
  · simp only [yields_bind, yields_extentFrom, yields_pure]
    exact faced.node start_in rfl trivial

end Grammar

end IndexedLoop
