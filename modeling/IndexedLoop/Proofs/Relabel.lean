import IndexedLoop.Proofs.Numbering
import IndexedLoop.Proofs.Visit

/-!
# A conversion does not look at labels

The labels of a tree are its spans and names. A conversion looks at one of them only, the name `forEach`, and
it writes the name `length`. If a `Relabel` leaves these two names alone, then it makes no difference whether a
tree is relabelled before or after it is converted (`walkStmts_relabel`). The names of the loops then have to
be relabelled too, but only those that are used.
-/

namespace IndexedLoop

/-- New spans and new names for a tree. -/
structure Relabel where
  span : Span → Span
  name : String → String

/-! ## Relabelled trees -/

section

variable (m : Relabel)

def Identifier.relabel (id : Identifier) : Identifier := ⟨m.span id.span, m.name id.name⟩

def Literal.relabel (lit : Literal) : Literal := { lit with span := m.span lit.span }

def Unknown.relabel (node : Unknown) : Unknown := { node with span := m.span node.span }

mutual

/-- The expression with new labels. -/
def Expr.relabel : Expr → Expr
  | .assignment span op left right => .assignment (m.span span) op left.relabel right.relabel
  | .binary span op left right => .binary (m.span span) op left.relabel right.relabel
  | .unary span op argument => .unary (m.span span) op argument.relabel
  | .sequence span expressions => .sequence (m.span span) (relabelExprs expressions)
  | .update span op leading argument => .update (m.span span) op leading argument.relabel
  | .function fn => .function fn.relabel
  | .call span callee arguments => .call (m.span span) callee.relabel (relabelExprs arguments)
  | .new span callee arguments => .new (m.span span) callee.relabel (relabelExprs arguments)
  | .conditional span test consequent alternate =>
    .conditional (m.span span) test.relabel consequent.relabel alternate.relabel
  | .member span object property access => .member (m.span span) object.relabel property.relabel access
  | .object span properties => .object (m.span span) (relabelProperties properties)
  | .array span elements => .array (m.span span) (relabelElements elements)
  | .this span => .this (m.span span)
  | .identifier id => .identifier (id.relabel m)
  | .literal lit => .literal (lit.relabel m)
  | .unknown node => .unknown (node.relabel m)

def relabelExprs : List Expr → List Expr
  | [] => []
  | e :: rest => e.relabel :: relabelExprs rest

def relabelElements : List (Option Expr) → List (Option Expr)
  | [] => []
  | none :: rest => none :: relabelElements rest
  | some e :: rest => some e.relabel :: relabelElements rest

def relabelProperties : List Property → List Property
  | [] => []
  | ⟨span, key, value⟩ :: rest => ⟨m.span span, key.relabel, value.relabel⟩ :: relabelProperties rest

def Function.relabel : Function → Function
  | ⟨span, id, params, body⟩ =>
    ⟨m.span span, id.map (Identifier.relabel m), relabelExprs params, body.relabel⟩

def Block.relabel : Block → Block
  | ⟨span, body⟩ => ⟨m.span span, relabelStmts body⟩

def relabelStmts : List Stmt → List Stmt
  | [] => []
  | s :: rest => s.relabel :: relabelStmts rest

def Declaration.relabel : Declaration → Declaration
  | ⟨span, kind, declarators⟩ => ⟨m.span span, kind, relabelDeclarators declarators⟩

def relabelDeclarators : List Declarator → List Declarator
  | [] => []
  | ⟨span, id, init⟩ :: rest => ⟨m.span span, id.relabel m, relabelOption init⟩ :: relabelDeclarators rest

def relabelOption : Option Expr → Option Expr
  | none => none
  | some e => some e.relabel

def relabelForInit : Option ForInit → Option ForInit
  | none => none
  | some (.declaration decl) => some (.declaration decl.relabel)
  | some (.expression e) => some (.expression e.relabel)

def FunctionDecl.relabel : FunctionDecl → FunctionDecl
  | ⟨span, id, params, body⟩ => ⟨m.span span, id.relabel m, relabelExprs params, body.relabel⟩

def ForLoop.relabel : ForLoop → ForLoop
  | ⟨span, init, test, update, body⟩ =>
    ⟨m.span span, relabelForInit init, relabelOption test, relabelOption update, body.relabel⟩

def WhileLoop.relabel : WhileLoop → WhileLoop
  | ⟨span, test, body⟩ => ⟨m.span span, test.relabel, body.relabel⟩

def IfElse.relabel : IfElse → IfElse
  | ⟨span, test, consequent, alternate⟩ =>
    ⟨m.span span, test.relabel, consequent.relabel, relabelBranch alternate⟩

def relabelBranch : Option Stmt → Option Stmt
  | none => none
  | some s => some s.relabel

/-- The statement with new labels. -/
def Stmt.relabel : Stmt → Stmt
  | .declaration decl => .declaration decl.relabel
  | .functionDecl fn => .functionDecl fn.relabel
  | .block b => .block b.relabel
  | .ret span argument => .ret (m.span span) (relabelOption argument)
  | .forLoop loop => .forLoop loop.relabel
  | .whileLoop loop => .whileLoop loop.relabel
  | .ifElse branch => .ifElse branch.relabel
  | .brk span => .brk (m.span span)
  | .cont span => .cont (m.span span)
  | .throw span argument => .throw (m.span span) argument.relabel
  | .empty span => .empty (m.span span)
  | .expression span e => .expression (m.span span) e.relabel
  | .unknown node => .unknown (node.relabel m)

end

end

/-- The program with new labels. -/
def Program.relabel (m : Relabel) (p : Program) : Program := ⟨m.span p.span, relabelStmts m p.body⟩

/-! A node with fields is relabelled field by field. -/

section

variable (m : Relabel)

theorem Function.relabel_eq (f : Function) :
    f.relabel m =
      ⟨m.span f.span, f.id.map (Identifier.relabel m), relabelExprs m f.params, f.body.relabel m⟩ := by
  cases f
  rw [Function.relabel]

theorem Block.relabel_eq (b : Block) : b.relabel m = ⟨m.span b.span, relabelStmts m b.body⟩ := by
  cases b
  rw [Block.relabel]

theorem Declaration.relabel_eq (d : Declaration) :
    d.relabel m = ⟨m.span d.span, d.kind, relabelDeclarators m d.declarators⟩ := by
  cases d
  rw [Declaration.relabel]

theorem FunctionDecl.relabel_eq (f : FunctionDecl) :
    f.relabel m = ⟨m.span f.span, f.id.relabel m, relabelExprs m f.params, f.body.relabel m⟩ := by
  cases f
  rw [FunctionDecl.relabel]

theorem ForLoop.relabel_eq (l : ForLoop) :
    l.relabel m =
      ⟨m.span l.span, relabelForInit m l.init, relabelOption m l.test, relabelOption m l.update,
        l.body.relabel m⟩ := by
  cases l
  rw [ForLoop.relabel]

theorem WhileLoop.relabel_eq (l : WhileLoop) :
    l.relabel m = ⟨m.span l.span, l.test.relabel m, l.body.relabel m⟩ := by
  cases l
  rw [WhileLoop.relabel]

theorem IfElse.relabel_eq (i : IfElse) :
    i.relabel m =
      ⟨m.span i.span, i.test.relabel m, i.consequent.relabel m, relabelBranch m i.alternate⟩ := by
  cases i
  rw [IfElse.relabel]

end

/-! ## Labels that stay -/

namespace Relabel

/-- New names, and the old spans. -/
def ofNames (name : String → String) : Relabel := ⟨id, name⟩

@[simp]
theorem span_ofNames (name : String → String) (s : Span) : (ofNames name).span s = s := rfl

@[simp]
theorem name_ofNames (name : String → String) (x : String) : (ofNames name).name x = name x := rfl

end Relabel

section

open Relabel

variable {f : String → String}

theorem Identifier.relabel_eq_self {id : Identifier} (h : f id.name = id.name) : id.relabel (ofNames f) = id := by
  rw [Identifier.relabel, span_ofNames, name_ofNames, h]

theorem Literal.relabel_eq_self (lit : Literal) : lit.relabel (ofNames f) = lit := by
  rw [Literal.relabel, span_ofNames]

theorem Unknown.relabel_eq_self (node : Unknown) : node.relabel (ofNames f) = node := by
  rw [Unknown.relabel, span_ofNames]

theorem relabel_eq_self : TreeLaw.Holds
    { expr e := (∀ x, e.Mentions x → f x = x) → e.relabel (ofNames f) = e
      exprs es := (∀ x, MentionedInExprs x es → f x = x) → relabelExprs (ofNames f) es = es
      elements es := (∀ x, MentionedInElements x es → f x = x) → relabelElements (ofNames f) es = es
      properties ps := (∀ x, MentionedInProperties x ps → f x = x) → relabelProperties (ofNames f) ps = ps
      block b := (∀ x, b.Mentions x → f x = x) → b.relabel (ofNames f) = b
      stmts ss := (∀ x, MentionedInStmts x ss → f x = x) → relabelStmts (ofNames f) ss = ss
      declaration d := (∀ x, d.Mentions x → f x = x) → d.relabel (ofNames f) = d
      declarators ds := (∀ x, MentionedInDeclarators x ds → f x = x) → relabelDeclarators (ofNames f) ds = ds
      option e := (∀ x, MentionedInOption x e → f x = x) → relabelOption (ofNames f) e = e
      forInit init := (∀ x, MentionedInForInit x init → f x = x) → relabelForInit (ofNames f) init = init
      stmt s := (∀ x, s.Mentions x → f x = x) → s.relabel (ofNames f) = s } := by
  refine TreeLaw.Closed.holds ?_
  constructor
  all_goals
    dsimp only
    intros
  case assignment left right h | binary left right h | member left right h | call left right h | new left right h =>
    simp only [Expr.Mentions, or_imp, forall_and] at h
    rw [Expr.relabel, span_ofNames, left h.1, right h.2]
  case unary inside h | update inside h | sequence inside h | object inside h | array inside h =>
    simp only [Expr.Mentions] at h
    rw [Expr.relabel, span_ofNames, inside h]
  case function id _ _ params body h =>
    simp only [Expr.Mentions, or_imp, forall_and] at h
    have name : id.map (Identifier.relabel (ofNames f)) = id := by
      cases id with
      | none => rfl
      | some id => rw [Option.map_some, id.relabel_eq_self (h.1 _ ⟨id, rfl, rfl⟩)]
    rw [Expr.relabel, Function.relabel, span_ofNames, name, params h.2.1, body h.2.2]
  case conditional test consequent alternate h =>
    simp only [Expr.Mentions, or_imp, forall_and] at h
    rw [Expr.relabel, span_ofNames, test h.1, consequent h.2.1, alternate h.2.2]
  case this => rw [Expr.relabel, span_ofNames]
  case identifier id h =>
    simp only [Expr.Mentions] at h
    rw [Expr.relabel, id.relabel_eq_self (h _ rfl)]
  case literal lit _ => rw [Expr.relabel, lit.relabel_eq_self]
  case unknownExpr node _ => rw [Expr.relabel, node.relabel_eq_self]
  case block body h =>
    simp only [Block.Mentions] at h
    rw [Block.relabel, span_ofNames, body h]
  case declaration declarators h =>
    simp only [Declaration.Mentions] at h
    rw [Declaration.relabel, span_ofNames, declarators h]
  case declarationStmt inside h | blockStmt inside h =>
    simp only [Stmt.Mentions] at h
    rw [Stmt.relabel, inside h]
  case functionDecl id _ _ params body h =>
    simp only [Stmt.Mentions, or_imp, forall_and] at h
    rw [Stmt.relabel, FunctionDecl.relabel, span_ofNames, id.relabel_eq_self (h.1 _ rfl), params h.2.1, body h.2.2]
  case ret inside h | throw inside h | expression inside h =>
    simp only [Stmt.Mentions] at h
    rw [Stmt.relabel, span_ofNames, inside h]
  case forLoop init test update body h =>
    simp only [Stmt.Mentions, or_imp, forall_and] at h
    rw [Stmt.relabel, ForLoop.relabel, span_ofNames, init h.1, test h.2.1, update h.2.2.1, body h.2.2.2]
  case whileLoop test body h =>
    simp only [Stmt.Mentions, or_imp, forall_and] at h
    rw [Stmt.relabel, WhileLoop.relabel, span_ofNames, test h.1, body h.2]
  case ifThen test consequent h =>
    simp only [Stmt.Mentions, or_imp, forall_and] at h
    rw [Stmt.relabel, IfElse.relabel, span_ofNames, test h.1, consequent h.2, relabelBranch]
  case ifElse test consequent alternate h =>
    simp only [Stmt.Mentions, or_imp, forall_and] at h
    rw [Stmt.relabel, IfElse.relabel, span_ofNames, test h.1, consequent h.2.1, relabelBranch, alternate h.2.2]
  case brk | cont | empty => rw [Stmt.relabel, span_ofNames]
  case unknownStmt node _ => rw [Stmt.relabel, node.relabel_eq_self]
  case exprs_nil => rw [relabelExprs]
  case exprs_cons first rest h =>
    simp only [MentionedInExprs, or_imp, forall_and] at h
    rw [relabelExprs, first h.1, rest h.2]
  case properties_nil => rw [relabelProperties]
  case properties_cons key value rest h =>
    simp only [MentionedInProperties, or_imp, forall_and] at h
    rw [relabelProperties, span_ofNames, key h.1, value h.2.1, rest h.2.2]
  case elements_nil => rw [relabelElements]
  case elements_hole rest h =>
    simp only [MentionedInElements] at h
    rw [relabelElements, rest h]
  case elements_cons first rest h =>
    simp only [MentionedInElements, or_imp, forall_and] at h
    rw [relabelElements, first h.1, rest h.2]
  case stmts_nil => rw [relabelStmts]
  case stmts_cons first rest h =>
    simp only [MentionedInStmts, or_imp, forall_and] at h
    rw [relabelStmts, first h.1, rest h.2]
  case option_none => rw [relabelOption]
  case option_some inside h =>
    simp only [MentionedInOption] at h
    rw [relabelOption, inside h]
  case declarators_nil => rw [relabelDeclarators]
  case declarators_cons id _ _ init rest h =>
    simp only [MentionedInDeclarators, or_imp, forall_and] at h
    rw [relabelDeclarators, span_ofNames, id.relabel_eq_self (h.1 _ rfl), init h.2.1, rest h.2.2]
  case forInit_none => rw [relabelForInit]
  case forInit_declaration inside h | forInit_expression inside h =>
    simp only [MentionedInForInit] at h
    rw [relabelForInit, inside h]

/-- A tree stays if the names that occur in it do. -/
theorem relabelStmts_eq_self (ss : List Stmt) : (∀ x, MentionedInStmts x ss → f x = x) → relabelStmts (ofNames f) ss = ss :=
  relabel_eq_self.stmts ss

end

/-! ## A visit with new labels -/

section

variable (m : Relabel)

/-- What a visit meets, with new labels. -/
def Event.relabel : Event → Event
  | .program p => .program (p.relabel m)
  | .stmt s => .stmt (s.relabel m)
  | .block b => .block (b.relabel m)
  | .declaration d => .declaration (d.relabel m)
  | .declarator d => .declarator ⟨m.span d.span, d.id.relabel m, relabelOption m d.init⟩
  | .functionDecl f => .functionDecl (f.relabel m)
  | .forLoop l => .forLoop (l.relabel m)
  | .whileLoop l => .whileLoop (l.relabel m)
  | .ifElse i => .ifElse (i.relabel m)
  | .function f => .function (f.relabel m)
  | .expr e => .expr (e.relabel m)
  | .identifier id => .identifier (id.relabel m)

theorem events_relabel : TreeLaw.Holds
    { expr e := (e.relabel m).events = e.events.map (Event.relabel m)
      exprs es := eventsOfExprs (relabelExprs m es) = (eventsOfExprs es).map (Event.relabel m)
      elements es := eventsOfElements (relabelElements m es) = (eventsOfElements es).map (Event.relabel m)
      properties ps := eventsOfProperties (relabelProperties m ps) = (eventsOfProperties ps).map (Event.relabel m)
      block b := (b.relabel m).events = b.events.map (Event.relabel m)
      stmts ss := eventsOfStmts (relabelStmts m ss) = (eventsOfStmts ss).map (Event.relabel m)
      declaration d := (d.relabel m).events = d.events.map (Event.relabel m)
      declarators ds := eventsOfDeclarators (relabelDeclarators m ds) = (eventsOfDeclarators ds).map (Event.relabel m)
      option e := eventsOfOption (relabelOption m e) = (eventsOfOption e).map (Event.relabel m)
      forInit init := eventsOfForInit (relabelForInit m init) = (eventsOfForInit init).map (Event.relabel m)
      stmt s := (s.relabel m).events = s.events.map (Event.relabel m) } := by
  refine TreeLaw.Closed.holds ?_
  constructor
  all_goals
    dsimp only
    intros
  case function id _ _ params body =>
    cases id <;> simp [Expr.relabel, Function.relabel, Expr.events, Event.relabel, params, body]
  all_goals
    simp [Expr.relabel, Expr.events, relabelExprs, eventsOfExprs, relabelElements, eventsOfElements,
      relabelProperties, eventsOfProperties, Block.relabel, Block.events, relabelStmts, eventsOfStmts,
      Declaration.relabel, Declaration.events, relabelDeclarators, eventsOfDeclarators, relabelOption, eventsOfOption,
      relabelForInit, eventsOfForInit, Stmt.relabel, FunctionDecl.relabel, ForLoop.relabel, WhileLoop.relabel,
      IfElse.relabel, relabelBranch, Stmt.events, Event.relabel, *]

/-- A visit of a tree with new labels meets the same nodes in the same order, with new labels. -/
theorem events_relabelStmts (ss : List Stmt) :
    eventsOfStmts (relabelStmts m ss) = (eventsOfStmts ss).map (Event.relabel m) :=
  (events_relabel m).stmts ss

/-- A visit meets the loops with new labels in the same order. -/
theorem loops_relabelStmts (ss : List Stmt) :
    loopsOf (eventsOfStmts (relabelStmts m ss)) = (loopsOf (eventsOfStmts ss)).map (ForLoop.relabel m) := by
  have label (event : Event) : (event.relabel m).loop? = event.loop?.map (ForLoop.relabel m) := by
    cases event <;> rfl
  rw [events_relabelStmts, loopsOf, List.filterMap_map, loopsOf, List.map_filterMap]
  exact congrArg (List.filterMap · _) (funext label)

theorem declaredIn_relabel (init : Option ForInit) :
    declaredIn (relabelForInit m init) = (declaredIn init).map m.name := by
  match init with
  | none => simp [relabelForInit, declaredIn]
  | some (.expression _) => simp [relabelForInit, declaredIn]
  | some (.declaration ⟨_, _, declarators⟩) =>
    simp only [relabelForInit, Declaration.relabel, declaredIn]
    induction declarators with
    | nil => simp [relabelDeclarators]
    | cons d rest ih =>
      obtain ⟨_, id, _⟩ := d
      simp only [relabelDeclarators, List.map_cons, ih, Identifier.relabel]

/-- A loop that counts with two names counts with their new labels. -/
theorem ForLoop.Counts.relabel {l : ForLoop} {pair : String × String} (h : l.Counts pair)
    (span_none : m.span Span.none = Span.none) :
    (l.relabel m).Counts (m.name pair.1, m.name pair.2) := by
  rw [ForLoop.relabel_eq]
  constructor
  · simp only [ForLoop.declared, declaredIn_relabel]
    rw [← ForLoop.declared, h.declared, List.map_cons, List.map_cons, List.map_nil]
  · simp only [h.test, relabelOption, Expr.relabel, Expr.ident, Identifier.relabel, Identifier.synthesized,
      span_none]
  · simp only [h.update, relabelOption, Expr.relabel, Expr.ident, Identifier.relabel, Identifier.synthesized,
      span_none]

end

/-! ## The idiom -/

/-- A conversion cannot tell the labels from the old ones. -/
structure Relabel.Unseen (m : Relabel) : Prop where
  span_none : m.span Span.none = Span.none
  forEach (x : String) : m.name x = "forEach" ↔ x = "forEach"
  length : m.name "length" = "length"

section

variable (m : Relabel)

mutual

theorem Stmt.returns_relabel : (s : Stmt) → (s.relabel m).returns = s.returns
  | .ret .. => by simp only [Stmt.relabel, Stmt.returns]
  | .block ⟨_, body⟩ => by simp only [Stmt.relabel, Block.relabel, Stmt.returns, anyReturns_relabel body]
  | .forLoop ⟨_, _, _, _, body⟩ => by
    simp only [Stmt.relabel, ForLoop.relabel, Stmt.returns, body.returns_relabel]
  | .whileLoop ⟨_, _, body⟩ => by
    simp only [Stmt.relabel, WhileLoop.relabel, Stmt.returns, body.returns_relabel]
  | .ifElse ⟨_, _, consequent, none⟩ => by
    simp only [Stmt.relabel, IfElse.relabel, relabelBranch, Stmt.returns, consequent.returns_relabel]
  | .ifElse ⟨_, _, consequent, some alternate⟩ => by
    simp only [Stmt.relabel, IfElse.relabel, relabelBranch, Stmt.returns, consequent.returns_relabel,
      alternate.returns_relabel]
  | .declaration _ | .functionDecl _ | .throw .. | .expression .. | .brk _ | .cont _ | .empty _
  | .unknown _ => by simp only [Stmt.relabel, Stmt.returns]

theorem anyReturns_relabel : (ss : List Stmt) → anyReturns (relabelStmts m ss) = anyReturns ss
  | [] => by simp only [relabelStmts]
  | s :: rest => by simp only [relabelStmts, anyReturns, s.returns_relabel, anyReturns_relabel rest]

end

theorem identifiers?_relabel (es : List Expr) :
    identifiers? (relabelExprs m es) = (identifiers? es).map (List.map (Identifier.relabel m)) := by
  induction es with
  | nil => simp [relabelExprs, identifiers?]
  | cons e rest ih =>
    cases e with
    | identifier id =>
      simp only [relabelExprs, Expr.relabel, identifiers?, ih, Option.map_map]
      rfl
    | _ => simp [relabelExprs, Expr.relabel, identifiers?]

namespace ForEach

/-- The parts with new labels. -/
def relabel (each : ForEach) : ForEach :=
  ⟨each.receiver.relabel m, each.params.map (Identifier.relabel m), each.body.relabel m⟩

theorem isThisArgument_relabel (es : List Expr) : isThisArgument (relabelExprs m es) = isThisArgument es := by
  match es with
  | [] => rfl
  | [e] => cases e <;> rfl
  | _ :: _ :: _ => simp [relabelExprs, isThisArgument]

variable {m} (unseen : m.Unseen)
include unseen

theorem isForEachName_relabel (access : Access) (property : Expr) :
    isForEachName access (property.relabel m) = isForEachName access property := by
  cases property with
  | identifier id =>
    cases access with
    | dot =>
      rw [Bool.eq_iff_iff]
      simp [Expr.relabel, Identifier.relabel, isForEachName, unseen.forEach]
    | _ => simp [Expr.relabel, isForEachName]
  | literal lit =>
    obtain ⟨_, value⟩ := lit
    cases access <;> cases value <;> simp [Expr.relabel, Literal.relabel, isForEachName]
  | _ => cases access <;> simp [Expr.relabel, isForEachName]

theorem ofCall?_relabel (callee : Expr) (arguments : List Expr) :
    ofCall? (callee.relabel m) (relabelExprs m arguments) = (ofCall? callee arguments).map (relabel m) := by
  cases callee with
  | member span receiver property access =>
    cases arguments with
    | nil => simp [Expr.relabel, relabelExprs, ofCall?]
    | cons e rest =>
      cases e with
      | function fn =>
        simp only [Expr.relabel, relabelExprs, ofCall?, fn.relabel_eq, fn.body.relabel_eq,
          isForEachName_relabel unseen, isThisArgument_relabel, anyReturns_relabel, identifiers?_relabel]
        split
        · rw [Option.map_map, Option.map_map]
          refine congrArg (Option.map · _) (funext fun params => ?_)
          simp [relabel, Block.relabel_eq]
        · rfl
      | _ => simp [Expr.relabel, relabelExprs, ofCall?]
  | _ => simp [Expr.relabel, ofCall?]

/-- The recognizer accepts a statement with new labels if it accepts the statement. -/
theorem ofStmt?_relabel (s : Stmt) : ofStmt? (s.relabel m) = (ofStmt? s).map (relabel m) := by
  cases s with
  | expression span e =>
    cases e with
    | call span callee arguments =>
      simp only [Stmt.relabel, Expr.relabel, ofStmt?, ofExpr?, ofCall?_relabel unseen]
    | _ => simp [Stmt.relabel, Expr.relabel, ofStmt?, ofExpr?]
  | _ => simp [Stmt.relabel, ofStmt?]

/-! ## The loop -/

theorem ident_relabel (x : String) : (Expr.ident x).relabel m = Expr.ident (m.name x) := by
  simp only [Expr.ident, Expr.relabel, Identifier.relabel, Identifier.synthesized, unseen.span_none]

theorem zero_relabel : Expr.zero.relabel m = Expr.zero := by
  simp only [Expr.zero, Expr.relabel, Literal.relabel, unseen.span_none]

theorem argument_relabel (receiver : Expr) (index : String) (k : Nat) :
    (argument receiver index k).relabel m = argument (receiver.relabel m) (m.name index) k := by
  unfold argument
  split
  · simp only [property, Expr.relabel, unseen.span_none, ident_relabel unseen]
  · exact ident_relabel unseen index
  · rfl
  · simp only [Expr.relabel, unseen.span_none, zero_relabel unseen]

theorem bindings_relabel (receiver : Expr) (index : String) (k : Nat) (ids : List Identifier) :
    relabelStmts m (bindings receiver index k ids) =
      bindings (receiver.relabel m) (m.name index) k (ids.map (Identifier.relabel m)) := by
  induction ids generalizing k with
  | nil => simp [bindings, relabelStmts]
  | cons id rest ih =>
    simp only [bindings, List.map_cons, relabelStmts, Stmt.relabel, varOf, variableOf, Declaration.relabel,
      relabelDeclarators, relabelOption, Identifier.relabel, Identifier.synthesized, unseen.span_none,
      argument_relabel unseen, ih]

omit unseen in
theorem relabelStmts_append (xs ys : List Stmt) :
    relabelStmts m (xs ++ ys) = relabelStmts m xs ++ relabelStmts m ys := by
  induction xs with
  | nil => simp [relabelStmts]
  | cons s rest ih => simp only [List.cons_append, relabelStmts, ih]

theorem toLoop_relabel (each : ForEach) (index length : String) :
    (each.toLoop index length).relabel m = (each.relabel m).toLoop (m.name index) (m.name length) := by
  simp only [ForLoop.relabel_eq, toLoop, relabelForInit, Declaration.relabel, varOf, variableOf,
    relabelDeclarators, relabelOption, Expr.relabel, Stmt.relabel, Block.relabel_eq, relabelStmts_append,
    bindings_relabel unseen, ident_relabel unseen, zero_relabel unseen, property, relabel, Identifier.relabel,
    Identifier.synthesized, unseen.span_none, unseen.length]

end ForEach

end

/-! ## The walk -/

namespace Naming

/-- The second naming has the new labels of the first one, from number `k` up to number `k'`. -/
def Agrees (m : Relabel) (names names' : Naming) (k k' : Nat) : Prop :=
  ∀ j, k ≤ j → j < k' → names' j = (m.name (names j).1, m.name (names j).2)

end Naming

section Walk

variable {m : Relabel} {names names' : Naming}

/-- If the namings agree on the way from `k` to `k'`, then so do the walks. -/
structure Follows (m : Relabel) (names names' : Naming) (k k' : Nat) (agrees : Prop) : Prop where
  le : k ≤ k'
  agrees : names.Agrees m names' k k' → agrees

namespace Follows

variable {k k₁ k₂ : Nat} {P Q : Prop}

theorem refl (h : P) : Follows m names names' k k P := ⟨Nat.le_refl k, fun _ => h⟩

theorem append (h₁ : Follows m names names' k k₁ P) (h₂ : Follows m names names' k₁ k₂ Q) :
    Follows m names names' k k₂ (P ∧ Q) where
  le := Nat.le_trans h₁.le h₂.le
  agrees h :=
    ⟨h₁.agrees fun j lo hi => h j lo (Nat.lt_of_lt_of_le hi h₂.le),
      h₂.agrees fun j lo hi => h j (Nat.le_trans h₁.le lo) hi⟩

theorem mono (h : Follows m names names' k k₁ P) (imp : P → Q) : Follows m names names' k k₁ Q :=
  ⟨h.le, fun agrees => imp (h.agrees agrees)⟩

end Follows

/-- The law that a walk of the tree with new labels leaves what the walk leaves, with new labels. -/
def relabelled (m : Relabel) (names names' : Naming) : Law Nat where
  expr e k r :=
    Follows m names names' k r.2 (walkExpr names'.hooks (e.relabel m) k = (r.1.relabel m, r.2))
  exprs es k r :=
    Follows m names names' k r.2 (walkExprs names'.hooks (relabelExprs m es) k = (relabelExprs m r.1, r.2))
  elements es k r :=
    Follows m names names' k r.2
      (walkElements names'.hooks (relabelElements m es) k = (relabelElements m r.1, r.2))
  properties ps k r :=
    Follows m names names' k r.2
      (walkProperties names'.hooks (relabelProperties m ps) k = (relabelProperties m r.1, r.2))
  function f k r :=
    Follows m names names' k r.2 (walkFunction names'.hooks (f.relabel m) k = (r.1.relabel m, r.2))
  block b k r :=
    Follows m names names' k r.2 (walkBlock names'.hooks (b.relabel m) k = (r.1.relabel m, r.2))
  stmts ss k r :=
    Follows m names names' k r.2 (walkStmts names'.hooks (relabelStmts m ss) k = (relabelStmts m r.1, r.2))
  declarators ds k r :=
    Follows m names names' k r.2
      (walkDeclarators names'.hooks (relabelDeclarators m ds) k = (relabelDeclarators m r.1, r.2))
  option e k r :=
    Follows m names names' k r.2 (walkOption names'.hooks (relabelOption m e) k = (relabelOption m r.1, r.2))
  forInit i k r :=
    Follows m names names' k r.2
      (walkForInit names'.hooks (relabelForInit m i) k = (relabelForInit m r.1, r.2))
  branch s k r :=
    Follows m names names' k r.2 (walkBranch names'.hooks (relabelBranch m s) k = (relabelBranch m r.1, r.2))
  inside s k r :=
    Follows m names names' k r.2 (descendStmt names'.hooks (s.relabel m) k = (r.1.relabel m, r.2))
  stmt s k r :=
    Follows m names names' k r.2 (walkStmt names'.hooks (s.relabel m) k = (r.1.relabel m, r.2))

/-- One statement: it is converted with new labels if it is converted, and gets the next names. -/
theorem convertStmt_relabel (unseen : m.Unseen) (s : Stmt) (k : Nat) :
    Follows m names names' k (names.convertStmt s k).2
      (names'.convertStmt (s.relabel m) k =
        ((names.convertStmt s k).1.relabel m, (names.convertStmt s k).2)) := by
  unfold Naming.convertStmt
  rw [ForEach.ofStmt?_relabel unseen]
  cases ForEach.ofStmt? s with
  | none => exact .refl rfl
  | some each =>
    refine ⟨Nat.le_succ k, fun agrees => ?_⟩
    rw [Option.map_some, Stmt.relabel, ForEach.toLoop_relabel unseen, agrees k (Nat.le_refl k) (Nat.lt_succ_self k)]

theorem relabelled_closed (unseen : m.Unseen) : (relabelled m names names').Closed names.convertStmt := by
  have idle : names'.hooks.OnStatements := Hooks.onStatements_idle _ _
  constructor
  all_goals simp only [relabelled, Expr.relabel, relabelExprs, relabelElements, relabelProperties,
    Function.relabel_eq, Block.relabel_eq, relabelStmts, relabelDeclarators, relabelOption, relabelForInit,
    Declaration.relabel_eq, relabelBranch, Stmt.relabel, FunctionDecl.relabel_eq, ForLoop.relabel_eq,
    WhileLoop.relabel_eq, IfElse.relabel_eq]
  all_goals intros
  case change s k r h =>
    refine ((convertStmt_relabel unseen s k).append h).mono fun e => ?_
    rw [walkStmt, show names'.hooks.stmt = names'.convertStmt from rfl, e.1]
    exact e.2
  -- leaves
  case this | identifier | literal | unknown => exact .refl (by rw [walkExpr, idle.expr, descendExpr])
  case brk | cont | empty | unknownStmt => exact .refl (by rw [descendStmt])
  case exprs_nil => exact .refl (by rw [walkExprs])
  case elements_nil => exact .refl (by rw [walkElements])
  case properties_nil => exact .refl (by rw [walkProperties])
  case stmts_nil => exact .refl (by rw [walkStmts])
  case declarators_nil => exact .refl (by rw [walkDeclarators])
  case option_none => exact .refl (by rw [walkOption])
  case forInit_none => exact .refl (by rw [walkForInit])
  case branch_none => exact .refl (by rw [walkBranch])
  -- one part
  case unary h | sequence h | update h | functionExpr h | object h | array h =>
    exact h.mono fun e => by rw [walkExpr, idle.expr, descendExpr, e]
  case elements_hole h => exact h.mono fun e => by rw [walkElements, e]
  case option_some h => exact h.mono fun e => by rw [walkOption, e]
  case branch_some h => exact h.mono fun e => by rw [walkBranch, e]
  case blocks h => exact h.mono fun e => by rw [walkBlock, idle.block, e]
  case forInit_declaration h => exact h.mono fun e => by rw [walkForInit, walkDeclaration, idle.declaration, e]
  case forInit_expression h => exact h.mono fun e => by rw [walkForInit, e]
  case declaration h => exact h.mono fun e => by rw [descendStmt, walkDeclaration, idle.declaration, e]
  case blockStmt h | ret h | throw h | expression h => exact h.mono fun e => by rw [descendStmt, e]
  -- more parts
  case assignment h₁ h₂ | binary h₁ h₂ | call h₁ h₂ | new h₁ h₂ | member h₁ h₂ =>
    exact (h₁.append h₂).mono fun e => by rw [walkExpr, idle.expr, descendExpr, e.1, e.2]
  case conditional h₁ h₂ h₃ =>
    exact ((h₁.append h₂).append h₃).mono fun e => by
      rw [walkExpr, idle.expr, descendExpr, e.1.1, e.1.2, e.2]
  case exprs_cons h₁ h₂ => exact (h₁.append h₂).mono fun e => by rw [walkExprs, e.1, e.2]
  case elements_cons h₁ h₂ => exact (h₁.append h₂).mono fun e => by rw [walkElements, e.1, e.2]
  case properties_cons h₁ h₂ h₃ =>
    exact ((h₁.append h₂).append h₃).mono fun e => by rw [walkProperties, e.1.1, e.1.2, e.2]
  case functions h₁ h₂ => exact (h₁.append h₂).mono fun e => by rw [walkFunction, idle.function, e.1, e.2]
  case stmts_cons h₁ h₂ => exact (h₁.append h₂).mono fun e => by rw [walkStmts, e.1, e.2]
  case declarators_cons h₁ h₂ => exact (h₁.append h₂).mono fun e => by rw [walkDeclarators, e.1, e.2]
  case functionDecl h₁ h₂ =>
    exact (h₁.append h₂).mono fun e => by rw [descendStmt, idle.functionDecl, e.1, e.2]
  case whileLoop h₁ h₂ => exact (h₁.append h₂).mono fun e => by rw [descendStmt, idle.whileLoop, e.1, e.2]
  case ifElse h₁ h₂ h₃ =>
    exact ((h₁.append h₂).append h₃).mono fun e => by rw [descendStmt, idle.ifElse, e.1.1, e.1.2, e.2]
  case forLoop h₁ h₂ h₃ h₄ =>
    exact (((h₁.append h₂).append h₃).append h₄).mono fun e => by
      rw [descendStmt, idle.forLoop, e.1.1.1, e.1.1.2, e.1.2, e.2]

/-- Statements with new labels are converted to what the statements are converted to, with new labels, if the
names that are used have the new labels too. -/
theorem walkStmts_relabel (unseen : m.Unseen) (ss : List Stmt) (k : Nat)
    (agrees : names.Agrees m names' k (walkStmts names.hooks ss k).2) :
    walkStmts names'.hooks (relabelStmts m ss) k =
      (relabelStmts m (walkStmts names.hooks ss k).1, (walkStmts names.hooks ss k).2) := by
  have closed : (relabelled m names names').Closed names.hooks.stmt := relabelled_closed unseen
  exact ((closed.holds (Hooks.onStatements_idle _ _)).stmts ss k).agrees agrees

end Walk

end IndexedLoop
