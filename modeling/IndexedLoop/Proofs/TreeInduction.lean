import IndexedLoop.Tree.Event

/-!
# Induction over trees

A tree has nodes of several kinds, and lists of them, each inside of the others. A law says something of each kind. It holds of
all trees if it holds of a node whenever it holds of what stands directly in the node (`TreeLaw.Closed.holds`), so an argument
about trees is one case per form of a node.
-/

namespace IndexedLoop

/-- A statement about each kind of node. -/
structure TreeLaw where
  expr : Expr → Prop
  exprs : List Expr → Prop
  elements : List (Option Expr) → Prop
  properties : List Property → Prop
  block : Block → Prop
  stmts : List Stmt → Prop
  declaration : Declaration → Prop
  declarators : List Declarator → Prop
  option : Option Expr → Prop
  forInit : Option ForInit → Prop
  stmt : Stmt → Prop

namespace TreeLaw

variable {L : TreeLaw}

structure Holds (L : TreeLaw) : Prop where
  expr (e : Expr) : L.expr e
  exprs (es : List Expr) : L.exprs es
  elements (es : List (Option Expr)) : L.elements es
  properties (ps : List Property) : L.properties ps
  block (b : Block) : L.block b
  stmts (ss : List Stmt) : L.stmts ss
  declaration (d : Declaration) : L.declaration d
  declarators (ds : List Declarator) : L.declarators ds
  option (e : Option Expr) : L.option e
  forInit (init : Option ForInit) : L.forInit init
  stmt (s : Stmt) : L.stmt s

/-- The law holds of each node if it holds of what stands directly in it. -/
structure Closed (L : TreeLaw) : Prop where
  assignment (span op left right) : L.expr left → L.expr right → L.expr (.assignment span op left right)
  binary (span op left right) : L.expr left → L.expr right → L.expr (.binary span op left right)
  unary (span op argument) : L.expr argument → L.expr (.unary span op argument)
  sequence (span expressions) : L.exprs expressions → L.expr (.sequence span expressions)
  update (span op leading argument) : L.expr argument → L.expr (.update span op leading argument)
  function (span id params body) : L.exprs params → L.block body → L.expr (.function ⟨span, id, params, body⟩)
  call (span callee arguments) : L.expr callee → L.exprs arguments → L.expr (.call span callee arguments)
  new (span callee arguments) : L.expr callee → L.exprs arguments → L.expr (.new span callee arguments)
  conditional (span test consequent alternate) :
    L.expr test → L.expr consequent → L.expr alternate → L.expr (.conditional span test consequent alternate)
  member (span object property access) :
    L.expr object → L.expr property → L.expr (.member span object property access)
  object (span properties) : L.properties properties → L.expr (.object span properties)
  array (span elements) : L.elements elements → L.expr (.array span elements)
  this (span) : L.expr (.this span)
  identifier (id) : L.expr (.identifier id)
  literal (lit) : L.expr (.literal lit)
  unknownExpr (node) : L.expr (.unknown node)
  block (span body) : L.stmts body → L.block ⟨span, body⟩
  declaration (span kind declarators) : L.declarators declarators → L.declaration ⟨span, kind, declarators⟩
  declarationStmt (decl) : L.declaration decl → L.stmt (.declaration decl)
  functionDecl (span id params body) :
    L.exprs params → L.block body → L.stmt (.functionDecl ⟨span, id, params, body⟩)
  blockStmt (b) : L.block b → L.stmt (.block b)
  ret (span argument) : L.option argument → L.stmt (.ret span argument)
  forLoop (span init test update body) : L.forInit init → L.option test → L.option update → L.stmt body →
    L.stmt (.forLoop ⟨span, init, test, update, body⟩)
  whileLoop (span test body) : L.expr test → L.stmt body → L.stmt (.whileLoop ⟨span, test, body⟩)
  ifThen (span test consequent) : L.expr test → L.stmt consequent → L.stmt (.ifElse ⟨span, test, consequent, none⟩)
  ifElse (span test consequent alternate) :
    L.expr test → L.stmt consequent → L.stmt alternate → L.stmt (.ifElse ⟨span, test, consequent, some alternate⟩)
  brk (span) : L.stmt (.brk span)
  cont (span) : L.stmt (.cont span)
  throw (span argument) : L.expr argument → L.stmt (.throw span argument)
  empty (span) : L.stmt (.empty span)
  expression (span expr) : L.expr expr → L.stmt (.expression span expr)
  unknownStmt (node) : L.stmt (.unknown node)
  exprs_nil : L.exprs []
  exprs_cons (e rest) : L.expr e → L.exprs rest → L.exprs (e :: rest)
  properties_nil : L.properties []
  properties_cons (span key value rest) :
    L.expr key → L.expr value → L.properties rest → L.properties (⟨span, key, value⟩ :: rest)
  elements_nil : L.elements []
  elements_hole (rest) : L.elements rest → L.elements (none :: rest)
  elements_cons (e rest) : L.expr e → L.elements rest → L.elements (some e :: rest)
  stmts_nil : L.stmts []
  stmts_cons (s rest) : L.stmt s → L.stmts rest → L.stmts (s :: rest)
  option_none : L.option none
  option_some (e) : L.expr e → L.option (some e)
  declarators_nil : L.declarators []
  declarators_cons (span id init rest) :
    L.option init → L.declarators rest → L.declarators (⟨span, id, init⟩ :: rest)
  forInit_none : L.forInit none
  forInit_declaration (decl) : L.declaration decl → L.forInit (some (.declaration decl))
  forInit_expression (e) : L.expr e → L.forInit (some (.expression e))

theorem Closed.holds (closed : L.Closed) : L.Holds := by
  have all := Expr.events.mutual_induct L.expr L.elements L.properties L.block L.stmts L.stmt L.forInit
    L.declaration L.declarators L.option L.exprs closed.assignment closed.binary closed.unary closed.sequence
    closed.update closed.function closed.call closed.new closed.conditional closed.member closed.object
    closed.array closed.this closed.identifier closed.literal closed.unknownExpr closed.block closed.declaration
    closed.declarationStmt closed.functionDecl closed.blockStmt closed.ret closed.forLoop closed.whileLoop
    closed.ifThen closed.ifElse closed.brk closed.cont closed.throw closed.empty closed.expression
    closed.unknownStmt closed.exprs_nil closed.exprs_cons closed.properties_nil closed.properties_cons
    closed.elements_nil closed.elements_hole closed.elements_cons closed.stmts_nil closed.stmts_cons
    closed.option_none closed.option_some closed.declarators_nil closed.declarators_cons closed.forInit_none
    closed.forInit_declaration closed.forInit_expression
  obtain ⟨expr, elements, properties, block, stmts, stmt, forInit, declaration, declarators, option, exprs⟩ := all
  exact { expr, exprs, elements, properties, block, stmts, declaration, declarators, option, forInit, stmt }

end TreeLaw

end IndexedLoop
