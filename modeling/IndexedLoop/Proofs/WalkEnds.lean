import IndexedLoop.Converter
import IndexedLoop.Proofs.Subtrees
import IndexedLoop.Proofs.Walk

/-!
# A conversion ends

A conversion goes on inside of the loop that it puts in place of a statement. The loop can be larger and deeper than the
statement was, as it repeats the receiver up to three times. It is never heavier (`ForEach.weight_toLoop_le`), and a subtree is
heavier than its children (`Subtree.weight_lt_of_mem_children`), so what a walk meets below a statement, after the hook, is
lighter than the statement before it.

That a walk ends is said without weights: the rules by which a walk goes from the parts of a node to the node give a
result for every node, and one only, which is that of the walk (`Law.derived_stmt_iff`).
-/

namespace IndexedLoop

variable {σ : Type}

/-! ## Subtrees -/

namespace Subtree

/-- The weight of a subtree. A name has none. -/
def weight : Subtree → Nat
  | .program p => 1 + weightOfStmts p.body
  | .stmt s => s.weight
  | .block b => b.weight
  | .declaration d => d.weight
  | .declarator v => 1 + weightOfOption v.init
  | .expr e => e.weight
  | .property p => 1 + p.key.weight + p.value.weight
  | .identifier _ => 0

/-- The weight of subtrees together. -/
def total (ts : List Subtree) : Nat := (ts.map weight).sum

@[simp]
theorem total_nil : total [] = 0 := rfl

@[simp]
theorem total_cons (t : Subtree) (ts : List Subtree) : total (t :: ts) = t.weight + total ts := rfl

@[simp]
theorem total_append (ts us : List Subtree) : total (ts ++ us) = total ts + total us := by
  simp [total]

theorem weight_le_total {c : Subtree} {ts : List Subtree} (hc : c ∈ ts) : c.weight ≤ total ts :=
  List.le_sum_of_mem (List.mem_map_of_mem hc)

/-! The parts of a node, kind by kind. -/

theorem total_exprs (es : List Expr) : total (es.map .expr) ≤ weightOfExprs es := by
  induction es with
  | nil => exact Nat.le_refl 0
  | cons e rest ih =>
    simp only [List.map_cons, total_cons, weight, weightOfExprs]
    omega

theorem total_elements (es : List (Option Expr)) : total (es.reduceOption.map .expr) ≤ weightOfElements es := by
  induction es with
  | nil => exact Nat.le_refl 0
  | cons e rest ih =>
    cases e with
    | none =>
      rw [List.reduceOption_cons_of_none, weightOfElements]
      omega
    | some e =>
      rw [List.reduceOption_cons_of_some, List.map_cons, total_cons, weight, weightOfElements]
      omega

theorem total_properties (ps : List Property) : total (ps.map .property) = weightOfProperties ps := by
  induction ps with
  | nil => rfl
  | cons p rest ih =>
    obtain ⟨_, _, _⟩ := p
    rw [List.map_cons, total_cons, ih, weight, weightOfProperties]

theorem total_stmts (ss : List Stmt) : total (ss.map .stmt) ≤ weightOfStmts ss := by
  induction ss with
  | nil => exact Nat.le_refl 0
  | cons s rest ih =>
    simp only [List.map_cons, total_cons, weight, weightOfStmts]
    omega

theorem total_declarators (vs : List Declarator) : total (vs.map .declarator) = weightOfDeclarators vs := by
  induction vs with
  | nil => rfl
  | cons v rest ih =>
    obtain ⟨_, _, _⟩ := v
    rw [List.map_cons, total_cons, ih, weight, weightOfDeclarators]

@[simp]
theorem total_option (e : Option Expr) : total (e.toList.map .expr) = weightOfOption e := by
  cases e <;> rfl

@[simp]
theorem total_forInit (init : Option ForInit) : total (init.toList.map ForInit.subtree) = weightOfForInit init := by
  rcases init with - | (decl | e) <;> rfl

@[simp]
theorem total_branch (s : Option Stmt) : total (s.toList.map .stmt) = weightOfBranch s := by
  cases s <;> rfl

@[simp]
theorem total_identifiers (id : Option Identifier) : total (id.toList.map .identifier) = 0 := by
  cases id <;> rfl

theorem total_ofExpr_lt (e : Expr) : total (ofExpr e) < e.weight := by
  cases e with
  | assignment | binary | member | unary | update | conditional | identifier | this | literal | unknown =>
    simp only [ofExpr, total_cons, total_nil, weight, Expr.weight]
    omega
  | sequence _ expressions =>
    have := total_exprs expressions
    simp only [ofExpr, Expr.weight]
    omega
  | call _ _ arguments | new _ _ arguments =>
    have := total_exprs arguments
    simp only [ofExpr, total_cons, weight, Expr.weight]
    omega
  | function fn =>
    have := total_exprs fn.params
    simp only [ofExpr, total_append, total_cons, total_nil, total_identifiers, weight, Expr.weight, Function.weight_eq]
    omega
  | object =>
    simp only [ofExpr, total_properties, Expr.weight]
    omega
  | array _ elements =>
    have := total_elements elements
    simp only [ofExpr, Expr.weight]
    omega

theorem total_ofStmt_lt (s : Stmt) : total (ofStmt s) < s.weight := by
  cases s with
  | declaration | block | throw | expression | brk | cont | empty | unknown =>
    simp only [ofStmt, total_cons, total_nil, weight, Stmt.weight]
    omega
  | functionDecl fn =>
    have := total_exprs fn.params
    simp only [ofStmt, total_append, total_cons, total_nil, weight, Stmt.weight, FunctionDecl.weight_eq]
    omega
  | ret =>
    simp only [ofStmt, total_option, Stmt.weight]
    omega
  | forLoop =>
    simp only [ofStmt, total_append, total_cons, total_nil, total_forInit, total_option, weight, Stmt.weight,
      ForLoop.weight_eq]
    omega
  | whileLoop =>
    simp only [ofStmt, total_cons, total_nil, weight, Stmt.weight, WhileLoop.weight_eq]
    omega
  | ifElse =>
    simp only [ofStmt, total_append, total_cons, total_nil, total_branch, weight, Stmt.weight, IfElse.weight_eq]
    omega

/-- A subtree is heavier than its children together. -/
theorem total_children_lt (t : Subtree) (own : ∀ id, t ≠ .identifier id) : total t.children < t.weight := by
  cases t with
  | stmt s => exact total_ofStmt_lt s
  | expr e => exact total_ofExpr_lt e
  | program p =>
    have := total_stmts p.body
    simp only [children, weight]
    omega
  | block b =>
    have := total_stmts b.body
    simp only [children, weight, Block.weight_eq]
    omega
  | declaration d =>
    simp only [children, total_declarators, weight, Declaration.weight_eq]
    omega
  | declarator v =>
    simp only [children, total_cons, total_option, weight]
    omega
  | property p =>
    simp only [children, total_cons, total_nil, weight]
    omega
  | identifier id => exact absurd rfl (own id)

theorem weight_lt_of_mem_children {t c : Subtree} (hc : c ∈ t.children) : c.weight < t.weight := by
  refine Nat.lt_of_le_of_lt (weight_le_total hc) (total_children_lt t ?_)
  rintro id rfl
  cases hc

end Subtree

/-! ## Derivations -/

namespace Law

/-- What the rules of a walk give in finitely many steps: what every law says that is closed under them. The rules do not
say that anything gets lighter. -/
def derived (change : Stmt → σ → Stmt × σ) : Law σ where
  expr e st r := ∀ L : Law σ, L.Closed change → L.expr e st r
  exprs es st r := ∀ L : Law σ, L.Closed change → L.exprs es st r
  elements es st r := ∀ L : Law σ, L.Closed change → L.elements es st r
  properties ps st r := ∀ L : Law σ, L.Closed change → L.properties ps st r
  function f st r := ∀ L : Law σ, L.Closed change → L.function f st r
  block b st r := ∀ L : Law σ, L.Closed change → L.block b st r
  stmts ss st r := ∀ L : Law σ, L.Closed change → L.stmts ss st r
  declarators ds st r := ∀ L : Law σ, L.Closed change → L.declarators ds st r
  option e st r := ∀ L : Law σ, L.Closed change → L.option e st r
  forInit i st r := ∀ L : Law σ, L.Closed change → L.forInit i st r
  branch s st r := ∀ L : Law σ, L.Closed change → L.branch s st r
  inside s st r := ∀ L : Law σ, L.Closed change → L.inside s st r
  stmt s st r := ∀ L : Law σ, L.Closed change → L.stmt s st r

variable {h : Hooks σ}

/-- That a result is the one of the walk is a closed law. -/
theorem beside_self_closed (idle : h.OnStatements) : (beside h Eq : Law σ).Closed h.stmt := by
  refine beside_closed idle ?_
  rintro s st _ rfl
  exact ⟨rfl, rfl⟩

theorem derived_stmt_iff (idle : h.OnStatements) {s : Stmt} {st : σ} {r : Stmt × σ} :
    (derived h.stmt).stmt s st r ↔ r = walkStmt h s st := by
  constructor
  · intro derivation
    obtain ⟨tree, state⟩ := derivation _ (beside_self_closed idle) st rfl
    exact Prod.ext tree.symm state.symm
  · rintro rfl L closed
    exact (closed.holds idle).stmt s st

theorem derived_stmts_iff (idle : h.OnStatements) {ss : List Stmt} {st : σ} {r : List Stmt × σ} :
    (derived h.stmt).stmts ss st r ↔ r = walkStmts h ss st := by
  constructor
  · intro derivation
    obtain ⟨tree, state⟩ := derivation _ (beside_self_closed idle) st rfl
    exact Prod.ext tree.symm state.symm
  · rintro rfl L closed
    exact (closed.holds idle).stmts ss st

end Law

/-! ## Conversions -/

namespace Conversion

/-- What is met below a statement, after the hook, is lighter than the statement was before it. -/
theorem weight_lt_of_mem_children_convertStmt {config : Config} {s : Stmt} {st : Conversion} {c : Subtree}
    (hc : c ∈ (Subtree.stmt (convertStmt config s st).1).children) : c.weight < (Subtree.stmt s).weight :=
  Nat.lt_of_lt_of_le (Subtree.weight_lt_of_mem_children hc) (weight_convertStmt config s st)

/-- A conversion ends, whatever it starts with. There is a measure that is smaller for what is met below a statement, after
the hook, than for the statement before it, and smaller for what is met below any other subtree. The walk leaves of a
statement what it leaves inside of what the hook puts in its place, and its results are those that the rules of a walk
give, for statements and for programs: one for each, in each state. -/
theorem walk_ends (config : Config) :
    (∃ measure : Subtree → Nat,
      (∀ s st, ∀ c ∈ (Subtree.stmt (convertStmt config s st).1).children, measure c < measure (.stmt s)) ∧
      ∀ t : Subtree, ∀ c ∈ t.children, measure c < measure t) ∧
    (∀ s st, walkStmt (hooks config) s st =
      descendStmt (hooks config) (convertStmt config s st).1 (convertStmt config s st).2) ∧
    (∀ s st r, (Law.derived (convertStmt config)).stmt s st r ↔ r = walkStmt (hooks config) s st) ∧
    ∀ (p : Program) st body st', (Law.derived (convertStmt config)).stmts p.body st (body, st') ↔
      walkProgram (hooks config) p st = (⟨p.span, body⟩, st') := by
  have idle : (hooks config).OnStatements := Hooks.onStatements_idle _ _
  refine ⟨⟨Subtree.weight, fun _ _ _ => weight_lt_of_mem_children_convertStmt,
    fun _ _ => Subtree.weight_lt_of_mem_children⟩, fun s st => ?_, fun _ _ _ => Law.derived_stmt_iff idle,
    fun p st body st' => ?_⟩
  · rw [walkStmt]
    rfl
  · have program : walkProgram (hooks config) p st =
        (⟨p.span, (walkStmts (hooks config) p.body st).1⟩, (walkStmts (hooks config) p.body st).2) := rfl
    rw [program, Prod.mk.injEq, Program.mk.injEq, and_iff_right rfl, ← Prod.mk.injEq, eq_comm]
    exact Law.derived_stmts_iff idle

/-- The number of nodes is no such measure: the loop for `a.b.forEach(function (x, i, all) {})` has more of them than the
statement. -/
example :
    let receiver := Expr.member Span.none (Expr.ident "a") (Expr.ident "b") .dot
    let callback := Expr.function
      ⟨Span.none, none, [Expr.ident "x", Expr.ident "i", Expr.ident "all"], ⟨Span.none, []⟩⟩
    let s := Stmt.expression Span.none
      (.call Span.none (.member Span.none receiver (Expr.ident "forEach") .dot) [callback])
    s.events.length < (convertStmt {} s ⟨NameSupply.new, 0, []⟩).1.events.length := by
  decide +kernel

end Conversion

end IndexedLoop
