import IndexedLoop.Tree.Walk

/-!
# What holds of every walk

A walk that changes statements only goes through a tree from left to right and passes a state along.
A `Law` says, for each kind of node, how a node and the state in which it is met are related to what is
left of the node and the state behind it. If a law is `Closed`, that is, it holds of a node whenever it
holds of the parts one after the other, then it holds of every walk (`Law.Closed.holds` and the
theorems before it). The hook enters in one place only: a law holds of a statement if it holds inside
of what the hook puts in its place.
-/

namespace IndexedLoop

variable {σ : Type}

namespace Hooks

/-- The hooks leave everything but statements as it is. -/
structure OnStatements (h : Hooks σ) : Prop where
  block (b : Block) (st : σ) : h.block b st = (b, st)
  declaration (d : Declaration) (st : σ) : h.declaration d st = (d, st)
  functionDecl (f : FunctionDecl) (st : σ) : h.functionDecl f st = (f, st)
  forLoop (l : ForLoop) (st : σ) : h.forLoop l st = (l, st)
  whileLoop (l : WhileLoop) (st : σ) : h.whileLoop l st = (l, st)
  ifElse (i : IfElse) (st : σ) : h.ifElse i st = (i, st)
  function (f : Function) (st : σ) : h.function f st = (f, st)
  expr (e : Expr) (st : σ) : h.expr e st = (e, st)

theorem onStatements_idle (change : Stmt → σ → Stmt × σ)
    (le : ∀ s st, (change s st).1.weight ≤ s.weight) :
    { idle σ with stmt := change, stmt_le := le : Hooks σ }.OnStatements :=
  ⟨fun _ _ => rfl, fun _ _ => rfl, fun _ _ => rfl, fun _ _ => rfl, fun _ _ => rfl, fun _ _ => rfl,
    fun _ _ => rfl, fun _ _ => rfl⟩

end Hooks

/-- How a node and the state in front of it are related to what a walk leaves of it and the state
behind it, for each kind of node. -/
structure Law (σ : Type) where
  expr : Expr → σ → Expr × σ → Prop
  exprs : List Expr → σ → List Expr × σ → Prop
  elements : List (Option Expr) → σ → List (Option Expr) × σ → Prop
  properties : List Property → σ → List Property × σ → Prop
  function : Function → σ → Function × σ → Prop
  block : Block → σ → Block × σ → Prop
  stmts : List Stmt → σ → List Stmt × σ → Prop
  declarators : List Declarator → σ → List Declarator × σ → Prop
  option : Option Expr → σ → Option Expr × σ → Prop
  forInit : Option ForInit → σ → Option ForInit × σ → Prop
  branch : Option Stmt → σ → Option Stmt × σ → Prop
  /-- A statement whose hook was called. -/
  inside : Stmt → σ → Stmt × σ → Prop
  stmt : Stmt → σ → Stmt × σ → Prop

namespace Law

/-- The law holds of a node if it holds of its parts, met one after the other. -/
structure Closed (L : Law σ) (change : Stmt → σ → Stmt × σ) : Prop where
  assignment {span op left right st l r} : L.expr left st l → L.expr right l.2 r →
    L.expr (.assignment span op left right) st (.assignment span op l.1 r.1, r.2)
  binary {span op left right st l r} : L.expr left st l → L.expr right l.2 r →
    L.expr (.binary span op left right) st (.binary span op l.1 r.1, r.2)
  unary {span op argument st a} : L.expr argument st a →
    L.expr (.unary span op argument) st (.unary span op a.1, a.2)
  sequence {span expressions st es} : L.exprs expressions st es →
    L.expr (.sequence span expressions) st (.sequence span es.1, es.2)
  update {span op leading argument st a} : L.expr argument st a →
    L.expr (.update span op leading argument) st (.update span op leading a.1, a.2)
  functionExpr {fn st f} : L.function fn st f → L.expr (.function fn) st (.function f.1, f.2)
  call {span callee arguments st c as} : L.expr callee st c → L.exprs arguments c.2 as →
    L.expr (.call span callee arguments) st (.call span c.1 as.1, as.2)
  new {span callee arguments st c as} : L.expr callee st c → L.exprs arguments c.2 as →
    L.expr (.new span callee arguments) st (.new span c.1 as.1, as.2)
  conditional {span test consequent alternate st t c a} : L.expr test st t →
    L.expr consequent t.2 c → L.expr alternate c.2 a →
    L.expr (.conditional span test consequent alternate) st (.conditional span t.1 c.1 a.1, a.2)
  member {span object property access st o p} : L.expr object st o → L.expr property o.2 p →
    L.expr (.member span object property access) st (.member span o.1 p.1 access, p.2)
  object {span properties st ps} : L.properties properties st ps →
    L.expr (.object span properties) st (.object span ps.1, ps.2)
  array {span elements st es} : L.elements elements st es →
    L.expr (.array span elements) st (.array span es.1, es.2)
  this {span st} : L.expr (.this span) st (.this span, st)
  identifier {id st} : L.expr (.identifier id) st (.identifier id, st)
  literal {lit st} : L.expr (.literal lit) st (.literal lit, st)
  unknown {node st} : L.expr (.unknown node) st (.unknown node, st)
  exprs_nil {st} : L.exprs [] st ([], st)
  exprs_cons {e rest st x xs} : L.expr e st x → L.exprs rest x.2 xs →
    L.exprs (e :: rest) st (x.1 :: xs.1, xs.2)
  elements_nil {st} : L.elements [] st ([], st)
  elements_hole {rest st xs} : L.elements rest st xs →
    L.elements (none :: rest) st (none :: xs.1, xs.2)
  elements_cons {e rest st x xs} : L.expr e st x → L.elements rest x.2 xs →
    L.elements (some e :: rest) st (some x.1 :: xs.1, xs.2)
  properties_nil {st} : L.properties [] st ([], st)
  properties_cons {span key value rest st k v xs} : L.expr key st k → L.expr value k.2 v →
    L.properties rest v.2 xs →
    L.properties (⟨span, key, value⟩ :: rest) st (⟨span, k.1, v.1⟩ :: xs.1, xs.2)
  functions {f st ps b} : L.exprs f.params st ps → L.block f.body ps.2 b →
    L.function f st (⟨f.span, f.id, ps.1, b.1⟩, b.2)
  blocks {b st ss} : L.stmts b.body st ss → L.block b st (⟨b.span, ss.1⟩, ss.2)
  stmts_nil {st} : L.stmts [] st ([], st)
  stmts_cons {s rest st x xs} : L.stmt s st x → L.stmts rest x.2 xs →
    L.stmts (s :: rest) st (x.1 :: xs.1, xs.2)
  declarators_nil {st} : L.declarators [] st ([], st)
  declarators_cons {span id init rest st i xs} : L.option init st i → L.declarators rest i.2 xs →
    L.declarators (⟨span, id, init⟩ :: rest) st (⟨span, id, i.1⟩ :: xs.1, xs.2)
  option_none {st} : L.option none st (none, st)
  option_some {e st x} : L.expr e st x → L.option (some e) st (some x.1, x.2)
  forInit_none {st} : L.forInit none st (none, st)
  forInit_declaration {d st ds} : L.declarators d.declarators st ds →
    L.forInit (some (.declaration d)) st (some (.declaration ⟨d.span, d.kind, ds.1⟩), ds.2)
  forInit_expression {e st x} : L.expr e st x →
    L.forInit (some (.expression e)) st (some (.expression x.1), x.2)
  branch_none {st} : L.branch none st (none, st)
  branch_some {s st x} : L.stmt s st x → L.branch (some s) st (some x.1, x.2)
  declaration {d st ds} : L.declarators d.declarators st ds →
    L.inside (.declaration d) st (.declaration ⟨d.span, d.kind, ds.1⟩, ds.2)
  functionDecl {f st ps b} : L.exprs f.params st ps → L.block f.body ps.2 b →
    L.inside (.functionDecl f) st (.functionDecl ⟨f.span, f.id, ps.1, b.1⟩, b.2)
  blockStmt {b st r} : L.block b st r → L.inside (.block b) st (.block r.1, r.2)
  ret {span argument st a} : L.option argument st a →
    L.inside (.ret span argument) st (.ret span a.1, a.2)
  forLoop {l st i t u b} : L.forInit l.init st i → L.option l.test i.2 t → L.option l.update t.2 u →
    L.stmt l.body u.2 b → L.inside (.forLoop l) st (.forLoop ⟨l.span, i.1, t.1, u.1, b.1⟩, b.2)
  whileLoop {l st t b} : L.expr l.test st t → L.stmt l.body t.2 b →
    L.inside (.whileLoop l) st (.whileLoop ⟨l.span, t.1, b.1⟩, b.2)
  ifElse {i st t c a} : L.expr i.test st t → L.stmt i.consequent t.2 c → L.branch i.alternate c.2 a →
    L.inside (.ifElse i) st (.ifElse ⟨i.span, t.1, c.1, a.1⟩, a.2)
  throw {span argument st a} : L.expr argument st a →
    L.inside (.throw span argument) st (.throw span a.1, a.2)
  expression {span e st x} : L.expr e st x →
    L.inside (.expression span e) st (.expression span x.1, x.2)
  brk {span st} : L.inside (.brk span) st (.brk span, st)
  cont {span st} : L.inside (.cont span) st (.cont span, st)
  empty {span st} : L.inside (.empty span) st (.empty span, st)
  unknownStmt {node st} : L.inside (.unknown node) st (.unknown node, st)
  /-- The walk goes on inside of what the hook leaves. -/
  change {s st r} : L.inside (change s st).1 (change s st).2 r → L.stmt s st r

/-- A closed law holds of every walk, whatever kind of node it starts at. -/
structure Holds (L : Law σ) (h : Hooks σ) : Prop where
  expr (e : Expr) (st : σ) : L.expr e st (walkExpr h e st)
  exprs (es : List Expr) (st : σ) : L.exprs es st (walkExprs h es st)
  stmt (s : Stmt) (st : σ) : L.stmt s st (walkStmt h s st)
  stmts (ss : List Stmt) (st : σ) : L.stmts ss st (walkStmts h ss st)

/-- A closed law holds of every walk. The induction is that of the walk, and each case of it is one rule
of the law. -/
theorem Closed.holds {L : Law σ} {h : Hooks σ} (hL : L.Closed h.stmt) (idle : h.OnStatements) :
    L.Holds h := by
  have all := by
    apply walkExpr.mutual_induct h
      (fun e st => L.expr e st (walkExpr h e st))
      (fun e st => L.expr e st (descendExpr h e st))
      (fun es st => L.elements es st (walkElements h es st))
      (fun ps st => L.properties ps st (walkProperties h ps st))
      (fun f st => L.function f st (walkFunction h f st))
      (fun b st => L.block b st (walkBlock h b st))
      (fun ss st => L.stmts ss st (walkStmts h ss st))
      (fun s st => L.stmt s st (walkStmt h s st))
      (fun s st => L.inside s st (descendStmt h s st))
      (fun s st => L.branch s st (walkBranch h s st))
      (fun i st => L.forInit i st (walkForInit h i st))
      (fun d st => L.declarators d.declarators st
        ((walkDeclaration h d st).1.declarators, (walkDeclaration h d st).2))
      (fun ds st => L.declarators ds st (walkDeclarators h ds st))
      (fun e st => L.option e st (walkOption h e st))
      (fun es st => L.exprs es st (walkExprs h es st))
    -- expressions
    · intro e st r inner
      simp only [r, idle.expr] at inner
      rwa [walkExpr, idle.expr]
    · intro _ _ _ _ _ _ left right
      rw [descendExpr]
      exact hL.assignment left right
    · intro _ _ _ _ _ _ left right
      rw [descendExpr]
      exact hL.binary left right
    · intro _ _ _ _ argument
      rw [descendExpr]
      exact hL.unary argument
    · intro _ _ _ expressions
      rw [descendExpr]
      exact hL.sequence expressions
    · intro _ _ _ _ _ argument
      rw [descendExpr]
      exact hL.update argument
    · intro _ _ fn
      rw [descendExpr]
      exact hL.functionExpr fn
    · intro _ _ _ _ _ callee arguments
      rw [descendExpr]
      exact hL.call callee arguments
    · intro _ _ _ _ _ callee arguments
      rw [descendExpr]
      exact hL.new callee arguments
    · intro _ _ _ _ _ _ _ test consequent _ alternate
      rw [descendExpr]
      exact hL.conditional test consequent alternate
    · intro _ _ _ _ _ _ object property
      rw [descendExpr]
      exact hL.member object property
    · intro _ _ _ properties
      rw [descendExpr]
      exact hL.object properties
    · intro _ _ _ elements
      rw [descendExpr]
      exact hL.array elements
    · intro _ _
      rw [descendExpr]
      exact hL.this
    · intro _ _
      rw [descendExpr]
      exact hL.identifier
    · intro _ _
      rw [descendExpr]
      exact hL.literal
    · intro _ _
      rw [descendExpr]
      exact hL.unknown
    -- lists inside of expressions
    · intro _
      rw [walkElements]
      exact hL.elements_nil
    · intro _ _ rest
      rw [walkElements]
      exact hL.elements_hole rest
    · intro _ _ _ _ e rest
      rw [walkElements]
      exact hL.elements_cons e rest
    · intro _
      rw [walkProperties]
      exact hL.properties_nil
    · intro _ _ _ _ _ _ _ key value _ rest
      rw [walkProperties]
      exact hL.properties_cons key value rest
    -- functions and statements
    · intro f st r ps params _ body
      simp only [ps, r, idle.function] at params body
      rw [walkFunction, idle.function]
      exact hL.functions params body
    · intro b st r body
      simp only [r, idle.block] at body
      rw [walkBlock, idle.block]
      exact hL.blocks body
    · intro _
      rw [walkStmts]
      exact hL.stmts_nil
    · intro _ _ _ _ s rest
      rw [walkStmts]
      exact hL.stmts_cons s rest
    · intro s st r inside
      rw [walkStmt]
      exact hL.change inside
    · intro d st declarators
      rw [descendStmt]
      simp only [walkDeclaration, idle.declaration] at declarators ⊢
      exact hL.declaration declarators
    · intro f st r ps params _ body
      simp only [ps, r, idle.functionDecl] at params body
      rw [descendStmt, idle.functionDecl]
      exact hL.functionDecl params body
    · intro _ _ block
      rw [descendStmt]
      exact hL.blockStmt block
    · intro _ _ _ argument
      rw [descendStmt]
      exact hL.ret argument
    · intro l st r i t u init _ test _ _ update body
      simp only [u, t, i, r, idle.forLoop] at init test update body
      rw [descendStmt, idle.forLoop]
      exact hL.forLoop init test update body
    · intro l st r t test _ body
      simp only [t, r, idle.whileLoop] at test body
      rw [descendStmt, idle.whileLoop]
      exact hL.whileLoop test body
    · intro i st r t c test _ consequent _ alternate
      simp only [c, t, r, idle.ifElse] at test consequent alternate
      rw [descendStmt, idle.ifElse]
      exact hL.ifElse test consequent alternate
    · intro _ _ _ argument
      rw [descendStmt]
      exact hL.throw argument
    · intro _ _ _ expr
      rw [descendStmt]
      exact hL.expression expr
    · intro _ _
      rw [descendStmt]
      exact hL.brk
    · intro _ _
      rw [descendStmt]
      exact hL.cont
    · intro _ _
      rw [descendStmt]
      exact hL.empty
    · intro _ _
      rw [descendStmt]
      exact hL.unknownStmt
    · intro _
      rw [walkBranch]
      exact hL.branch_none
    · intro _ _ s
      rw [walkBranch]
      exact hL.branch_some s
    · intro _
      rw [walkForInit]
      exact hL.forInit_none
    · intro d st declarators
      rw [walkForInit]
      simp only [walkDeclaration, idle.declaration] at declarators ⊢
      exact hL.forInit_declaration declarators
    · intro _ _ e
      rw [walkForInit]
      exact hL.forInit_expression e
    · intro d st r declarators
      simp only [r, idle.declaration] at declarators
      rwa [walkDeclaration, idle.declaration]
    · intro _
      rw [walkDeclarators]
      exact hL.declarators_nil
    · intro _ _ _ _ _ _ init rest
      rw [walkDeclarators]
      exact hL.declarators_cons init rest
    · intro _
      rw [walkOption]
      exact hL.option_none
    · intro _ _ e
      rw [walkOption]
      exact hL.option_some e
    · intro _
      rw [walkExprs]
      exact hL.exprs_nil
    · intro _ _ _ _ e rest
      rw [walkExprs]
      exact hL.exprs_cons e rest
  exact ⟨all.1, all.2.2.2.2.2.2.2.2.2.2.2.2.2.2, all.2.2.2.2.2.2.2.1, all.2.2.2.2.2.2.1⟩

/-! ## What a walk does to the state -/

/-- The law that the state moves along a relation. -/
def along (R : σ → σ → Prop) : Law σ where
  expr _ st r := R st r.2
  exprs _ st r := R st r.2
  elements _ st r := R st r.2
  properties _ st r := R st r.2
  function _ st r := R st r.2
  block _ st r := R st r.2
  stmts _ st r := R st r.2
  declarators _ st r := R st r.2
  option _ st r := R st r.2
  forInit _ st r := R st r.2
  branch _ st r := R st r.2
  inside _ st r := R st r.2
  stmt _ st r := R st r.2

/-- A walk moves the state along a relation if every change of a statement does. -/
theorem along_closed {R : σ → σ → Prop} (refl : ∀ st, R st st)
    (trans : ∀ {a b c}, R a b → R b c → R a c) {change : Stmt → σ → Stmt × σ}
    (step : ∀ s st, R st (change s st).2) : (along R).Closed change := by
  constructor
  all_goals simp only [along]
  all_goals intros
  case change h => exact trans (step _ _) h
  case this | identifier | literal | unknown | exprs_nil | elements_nil | properties_nil | stmts_nil
      | declarators_nil | option_none | forInit_none | branch_none | brk | cont | empty | unknownStmt =>
    exact refl _
  case properties_cons h₁ h₂ h₃ | conditional h₁ h₂ h₃ | ifElse h₁ h₂ h₃ =>
    exact trans (trans h₁ h₂) h₃
  case forLoop h₁ h₂ h₃ h₄ => exact trans (trans (trans h₁ h₂) h₃) h₄
  case assignment h₁ h₂ | binary h₁ h₂ | call h₁ h₂ | new h₁ h₂ | member h₁ h₂ | exprs_cons h₁ h₂
      | elements_cons h₁ h₂ | functions h₁ h₂ | stmts_cons h₁ h₂ | declarators_cons h₁ h₂
      | functionDecl h₁ h₂ | whileLoop h₁ h₂ =>
    exact trans h₁ h₂
  all_goals assumption

/-! ## Two walks side by side -/

/-- The law that another walk, started in a related state, leaves the same tree and a related state. -/
def beside {τ : Type} (h : Hooks τ) (R : τ → σ → Prop) : Law σ where
  expr e st r := ∀ t, R t st → (walkExpr h e t).1 = r.1 ∧ R (walkExpr h e t).2 r.2
  exprs es st r := ∀ t, R t st → (walkExprs h es t).1 = r.1 ∧ R (walkExprs h es t).2 r.2
  elements es st r := ∀ t, R t st → (walkElements h es t).1 = r.1 ∧ R (walkElements h es t).2 r.2
  properties ps st r :=
    ∀ t, R t st → (walkProperties h ps t).1 = r.1 ∧ R (walkProperties h ps t).2 r.2
  function f st r := ∀ t, R t st → (walkFunction h f t).1 = r.1 ∧ R (walkFunction h f t).2 r.2
  block b st r := ∀ t, R t st → (walkBlock h b t).1 = r.1 ∧ R (walkBlock h b t).2 r.2
  stmts ss st r := ∀ t, R t st → (walkStmts h ss t).1 = r.1 ∧ R (walkStmts h ss t).2 r.2
  declarators ds st r :=
    ∀ t, R t st → (walkDeclarators h ds t).1 = r.1 ∧ R (walkDeclarators h ds t).2 r.2
  option e st r := ∀ t, R t st → (walkOption h e t).1 = r.1 ∧ R (walkOption h e t).2 r.2
  forInit i st r := ∀ t, R t st → (walkForInit h i t).1 = r.1 ∧ R (walkForInit h i t).2 r.2
  branch s st r := ∀ t, R t st → (walkBranch h s t).1 = r.1 ∧ R (walkBranch h s t).2 r.2
  inside s st r := ∀ t, R t st → (descendStmt h s t).1 = r.1 ∧ R (descendStmt h s t).2 r.2
  stmt s st r := ∀ t, R t st → (walkStmt h s t).1 = r.1 ∧ R (walkStmt h s t).2 r.2

theorem beside_closed {τ : Type} {h : Hooks τ} (idle : h.OnStatements) {R : τ → σ → Prop}
    {change : Stmt → σ → Stmt × σ}
    (step : ∀ s t st, R t st → (h.stmt s t).1 = (change s st).1 ∧ R (h.stmt s t).2 (change s st).2) :
    (beside h R).Closed change := by
  constructor
  all_goals simp only [beside]
  all_goals intros
  case change h t ht =>
    obtain ⟨e₁, r₁⟩ := step _ t _ ht
    rw [walkStmt, e₁]
    exact h _ r₁
  -- leaves
  case this t ht | identifier t ht | literal t ht | unknown t ht =>
    rw [walkExpr, idle.expr, descendExpr]
    exact ⟨rfl, ht⟩
  case brk t ht | cont t ht | empty t ht | unknownStmt t ht =>
    rw [descendStmt]
    exact ⟨rfl, ht⟩
  case exprs_nil t ht => rw [walkExprs]; exact ⟨rfl, ht⟩
  case elements_nil t ht => rw [walkElements]; exact ⟨rfl, ht⟩
  case properties_nil t ht => rw [walkProperties]; exact ⟨rfl, ht⟩
  case stmts_nil t ht => rw [walkStmts]; exact ⟨rfl, ht⟩
  case declarators_nil t ht => rw [walkDeclarators]; exact ⟨rfl, ht⟩
  case option_none t ht => rw [walkOption]; exact ⟨rfl, ht⟩
  case forInit_none t ht => rw [walkForInit]; exact ⟨rfl, ht⟩
  case branch_none t ht => rw [walkBranch]; exact ⟨rfl, ht⟩
  -- one part
  case unary h t ht | sequence h t ht | update h t ht | functionExpr h t ht | object h t ht
      | array h t ht =>
    rw [walkExpr, idle.expr, descendExpr]
    exact ⟨by rw [(h t ht).1], (h t ht).2⟩
  case elements_hole h t ht => rw [walkElements]; exact ⟨by rw [(h t ht).1], (h t ht).2⟩
  case option_some h t ht => rw [walkOption]; exact ⟨by rw [(h t ht).1], (h t ht).2⟩
  case branch_some h t ht => rw [walkBranch]; exact ⟨by rw [(h t ht).1], (h t ht).2⟩
  case blocks h t ht =>
    rw [walkBlock, idle.block]
    exact ⟨by rw [(h t ht).1], (h t ht).2⟩
  case forInit_declaration h t ht =>
    rw [walkForInit, walkDeclaration, idle.declaration]
    exact ⟨by rw [(h t ht).1], (h t ht).2⟩
  case forInit_expression h t ht =>
    rw [walkForInit]
    exact ⟨by rw [(h t ht).1], (h t ht).2⟩
  case declaration h t ht =>
    rw [descendStmt, walkDeclaration, idle.declaration]
    exact ⟨by rw [(h t ht).1], (h t ht).2⟩
  case blockStmt h t ht | ret h t ht | throw h t ht | expression h t ht =>
    rw [descendStmt]
    exact ⟨by rw [(h t ht).1], (h t ht).2⟩
  -- more parts, each met in the state that the one before it leaves
  case assignment h₁ h₂ t ht | binary h₁ h₂ t ht | call h₁ h₂ t ht | new h₁ h₂ t ht
      | member h₁ h₂ t ht =>
    rw [walkExpr, idle.expr, descendExpr]
    obtain ⟨e₁, r₁⟩ := h₁ t ht
    obtain ⟨e₂, r₂⟩ := h₂ _ r₁
    exact ⟨by rw [e₁, e₂], r₂⟩
  case conditional h₁ h₂ h₃ t ht =>
    rw [walkExpr, idle.expr, descendExpr]
    obtain ⟨e₁, r₁⟩ := h₁ t ht
    obtain ⟨e₂, r₂⟩ := h₂ _ r₁
    obtain ⟨e₃, r₃⟩ := h₃ _ r₂
    exact ⟨by rw [e₁, e₂, e₃], r₃⟩
  case exprs_cons h₁ h₂ t ht =>
    rw [walkExprs]
    obtain ⟨e₁, r₁⟩ := h₁ t ht
    obtain ⟨e₂, r₂⟩ := h₂ _ r₁
    exact ⟨by rw [e₁, e₂], r₂⟩
  case elements_cons h₁ h₂ t ht =>
    rw [walkElements]
    obtain ⟨e₁, r₁⟩ := h₁ t ht
    obtain ⟨e₂, r₂⟩ := h₂ _ r₁
    exact ⟨by rw [e₁, e₂], r₂⟩
  case properties_cons h₁ h₂ h₃ t ht =>
    rw [walkProperties]
    obtain ⟨e₁, r₁⟩ := h₁ t ht
    obtain ⟨e₂, r₂⟩ := h₂ _ r₁
    obtain ⟨e₃, r₃⟩ := h₃ _ r₂
    exact ⟨by rw [e₁, e₂, e₃], r₃⟩
  case functions h₁ h₂ t ht =>
    rw [walkFunction, idle.function]
    obtain ⟨e₁, r₁⟩ := h₁ t ht
    obtain ⟨e₂, r₂⟩ := h₂ _ r₁
    exact ⟨by rw [e₁, e₂], r₂⟩
  case stmts_cons h₁ h₂ t ht =>
    rw [walkStmts]
    obtain ⟨e₁, r₁⟩ := h₁ t ht
    obtain ⟨e₂, r₂⟩ := h₂ _ r₁
    exact ⟨by rw [e₁, e₂], r₂⟩
  case declarators_cons h₁ h₂ t ht =>
    rw [walkDeclarators]
    obtain ⟨e₁, r₁⟩ := h₁ t ht
    obtain ⟨e₂, r₂⟩ := h₂ _ r₁
    exact ⟨by rw [e₁, e₂], r₂⟩
  case functionDecl h₁ h₂ t ht =>
    rw [descendStmt, idle.functionDecl]
    obtain ⟨e₁, r₁⟩ := h₁ t ht
    obtain ⟨e₂, r₂⟩ := h₂ _ r₁
    exact ⟨by rw [e₁, e₂], r₂⟩
  case whileLoop h₁ h₂ t ht =>
    rw [descendStmt, idle.whileLoop]
    obtain ⟨e₁, r₁⟩ := h₁ t ht
    obtain ⟨e₂, r₂⟩ := h₂ _ r₁
    exact ⟨by rw [e₁, e₂], r₂⟩
  case ifElse h₁ h₂ h₃ t ht =>
    rw [descendStmt, idle.ifElse]
    obtain ⟨e₁, r₁⟩ := h₁ t ht
    obtain ⟨e₂, r₂⟩ := h₂ _ r₁
    obtain ⟨e₃, r₃⟩ := h₃ _ r₂
    exact ⟨by rw [e₁, e₂, e₃], r₃⟩
  case forLoop h₁ h₂ h₃ h₄ t ht =>
    rw [descendStmt, idle.forLoop]
    obtain ⟨e₁, r₁⟩ := h₁ t ht
    obtain ⟨e₂, r₂⟩ := h₂ _ r₁
    obtain ⟨e₃, r₃⟩ := h₃ _ r₂
    obtain ⟨e₄, r₄⟩ := h₄ _ r₃
    exact ⟨by rw [e₁, e₂, e₃, e₄], r₄⟩

end Law

end IndexedLoop
