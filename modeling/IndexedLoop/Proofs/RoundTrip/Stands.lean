import IndexedLoop.Lowering
import IndexedLoop.Proofs.Numerals
import IndexedLoop.Proofs.RoundTrip.Canonical
import IndexedLoop.Proofs.Spans
import IndexedLoop.Proofs.Utf8
import IndexedLoop.Surface.Pattern
import Mathlib

/-!
# What a surface tree stands for

A surface tree stands for a tree if it lowers to that tree, up to spans, without an error and without a
word in the log. There is one rule for each form.
-/

namespace IndexedLoop

namespace Lower

variable {α β : Type}

/-- The lowering succeeds with a result that satisfies `post`, and writes nothing. -/
def Gives (m : Lower α) (post : α → Prop) : Prop :=
  ∀ log, ∃ a, m.run log = (.ok a, log) ∧ post a

theorem run_bind {σ : Type} (m : StateM σ α) (f : α → StateM σ β) (st : σ) :
    (m >>= f) st = f (m st).1 (m st).2 := rfl

theorem gives_pure {a : α} {post : α → Prop} (h : post a) : Gives (pure a) post :=
  fun _ => ⟨a, rfl, h⟩

theorem Gives.bind {m : Lower α} {f : α → Lower β} {mid : α → Prop} {post : β → Prop} (hm : Gives m mid)
    (hf : ∀ a, mid a → Gives (f a) post) : Gives (m >>= f) post := by
  intro log
  obtain ⟨a, e, ha⟩ := hm log
  obtain ⟨b, e', hb⟩ := hf a ha log
  refine ⟨b, ?_, hb⟩
  show (ExceptT.run m >>= ExceptT.bindCont f : StateM _ _) log = _
  rw [run_bind, e]
  exact e'

theorem Gives.map {m : Lower α} {f : α → β} {mid : α → Prop} {post : β → Prop} (hm : Gives m mid)
    (hf : ∀ a, mid a → post (f a)) : Gives (f <$> m) post := by
  rw [map_eq_pure_bind]
  exact hm.bind fun a ha => gives_pure (hf a ha)

/-- What succeeds is never unknown. -/
theorem Gives.orUnknown {m : Lower α} {post : α → Prop} (h : Gives m post) (what file : String)
    (p : Surface.Piece) (unknown : Unknown → α) : Gives (orUnknown what file p unknown m) post := by
  intro log
  obtain ⟨a, e, ha⟩ := h log
  refine ⟨a, ?_, ha⟩
  have run (handle : Located ReadError → Lower α) : (tryCatch m handle).run log = (.ok a, log) := by
    show (ExceptT.tryCatch m handle).run log = _
    rw [ExceptT.tryCatch, ExceptT.run_mk, run_bind, show m log = (.ok a, log) from e]
    rfl
  exact run _

end Lower

namespace Surface

open Lower

/-! ## Expressions -/

namespace Expr

/-- The expression is not spread, and not opaque. -/
def isPlain : Expr → Bool
  | .spread .. | .other _ => false
  | _ => true

/-- The forms that a member has. -/
def isMember : Expr → Bool
  | .dot .. | .subscript .. | .parens .. => true
  | _ => false

theorem isPlain_of_isMember {s : Expr} (h : s.isMember = true) : s.isPlain = true := by
  cases s <;> simp_all [isMember, isPlain]

/-- The form of what stands for an expression. Names and `this` have no parentheses around them. -/
def FormOf (s : Expr) : IndexedLoop.Expr → Prop
  | .identifier id => ∃ extent, s = .name ⟨extent, id.name⟩
  | .this _ => ∃ extent, s = .this extent
  | .member .. => s.isMember = true
  | _ => s.isPlain = true

/-- The surface expression stands for the expression. -/
structure Stands (s : Expr) (e : IndexedLoop.Expr) : Prop where
  lowers : ∀ file, Gives (s.lower file) (·.bare = e.bare)
  form : s.FormOf e

namespace Stands

variable {s : Expr} {e : IndexedLoop.Expr}

theorem isPlain (h : s.Stands e) : s.isPlain = true := by
  have form := h.form
  cases e with
  | identifier id =>
    obtain ⟨extent, rfl⟩ := form
    rfl
  | this span =>
    obtain ⟨extent, rfl⟩ := form
    rfl
  | member span object property access => exact isPlain_of_isMember form
  | _ => exact form

theorem isImport (h : s.Stands e) : s.isImport = false := by
  have plain := h.isPlain
  cases s <;> simp_all [Expr.isPlain, Expr.isImport]

/-- What stands for a name or a member can be assigned to. -/
theorem target (h : s.Stands e) (place : e.IsPlace) : s.target? = some s := by
  have form := h.form
  cases e with
  | identifier id =>
    obtain ⟨extent, rfl⟩ := form
    simp [target?, isAssignable]
  | member span object property access =>
    have form : s.isMember = true := form
    cases s <;> simp_all [isMember, target?, isAssignable]
  | _ => exact absurd place (by simp [IndexedLoop.Expr.IsPlace])

/-- And by every assignment, unless it is `undefined`. -/
theorem updateTarget (h : s.Stands e) (place : e.IsPlace)
    (defined : ∀ id, e = .identifier id → id.name ≠ "undefined") : s.updateTarget? = some s := by
  have form := h.form
  cases e with
  | identifier id =>
    obtain ⟨extent, rfl⟩ := form
    simp [updateTarget?, defined id rfl]
  | member span object property access =>
    have form : s.isMember = true := form
    cases s <;> simp_all [isMember, updateTarget?]
  | _ => exact absurd place (by simp [IndexedLoop.Expr.IsPlace])

variable {x : Extent} {span : Span}

theorem name (x : Extent) (id : Identifier) : (Expr.name ⟨x, id.name⟩).Stands (.identifier id) := by
  refine ⟨fun file => ?_, x, rfl⟩
  exact gives_pure rfl

theorem this (x : Extent) (span : Span) : (Expr.this x).Stands (.this span) := by
  refine ⟨fun file => ?_, x, rfl⟩
  exact gives_pure rfl

/-- Parentheses leave no trace. -/
theorem parens (h : s.Stands e) (x : Extent) (id : ∀ id, e ≠ .identifier id)
    (this : ∀ span, e ≠ .this span) : (Expr.parens x s).Stands e := by
  refine ⟨fun file => ?_, ?_⟩
  · simp only [Expr.lower]
    exact h.lowers file
  · cases e with
    | identifier i => exact absurd rfl (id i)
    | this span => exact absurd rfl (this span)
    | _ => rfl

theorem assignment {t v : Expr} {left right : IndexedLoop.Expr} (ht : t.Stands left) (hv : v.Stands right)
    (op : AssignOp) : (Expr.assignment x op t v).Stands (.assignment span op left right) := by
  refine ⟨fun file => ?_, rfl⟩
  refine (ht.lowers file).bind fun l hl => (hv.lowers file).bind fun r hr => gives_pure ?_
  exact congrArg₂ (IndexedLoop.Expr.assignment .none op) hl hr

theorem binary {a b : Expr} {left right : IndexedLoop.Expr} (ha : a.Stands left) (hb : b.Stands right)
    (op : BinaryOp) : (Expr.binary x op a b).Stands (.binary span op left right) := by
  refine ⟨fun file => ?_, rfl⟩
  refine (ha.lowers file).bind fun l hl => (hb.lowers file).bind fun r hr => gives_pure ?_
  exact congrArg₂ (IndexedLoop.Expr.binary .none op) hl hr

theorem unary (h : s.Stands e) (op : UnaryOp) : (Expr.unary x op s).Stands (.unary span op e) := by
  refine ⟨fun file => ?_, rfl⟩
  refine (h.lowers file).bind fun a ha => gives_pure ?_
  exact congrArg (IndexedLoop.Expr.unary .none op) ha

theorem update (h : s.Stands e) (op : UpdateOp) (leading : Bool) :
    (Expr.update x op leading s).Stands (.update span op leading e) := by
  refine ⟨fun file => ?_, rfl⟩
  refine (h.lowers file).bind fun a ha => gives_pure ?_
  exact congrArg (IndexedLoop.Expr.update .none op leading) ha

theorem conditional {t c a : Expr} {test consequent alternate : IndexedLoop.Expr} (ht : t.Stands test)
    (hc : c.Stands consequent) (ha : a.Stands alternate) :
    (Expr.conditional x t c a).Stands (.conditional span test consequent alternate) := by
  refine ⟨fun file => ?_, rfl⟩
  refine (ht.lowers file).bind fun t' ht' => (hc.lowers file).bind fun c' hc' =>
    (ha.lowers file).bind fun a' ha' => gives_pure ?_
  show IndexedLoop.Expr.conditional .none t'.bare c'.bare a'.bare = _
  rw [ht', hc', ha']
  rfl

theorem dot (h : s.Stands e) (y : Extent) (id : Identifier) :
    (Expr.dot x s ⟨y, id.name⟩).Stands (.member span e (.identifier id) .dot) := by
  refine ⟨fun file => ?_, rfl⟩
  refine (h.lowers file).bind fun o ho => gives_pure ?_
  exact congrArg (IndexedLoop.Expr.member .none · (.identifier id.bare) .dot) ho

theorem subscript {i : Expr} {index : IndexedLoop.Expr} (h : s.Stands e) (hi : i.Stands index) :
    (Expr.subscript x s i).Stands (.member span e index .bracket) := by
  refine ⟨fun file => ?_, rfl⟩
  refine (h.lowers file).bind fun o ho => (hi.lowers file).bind fun p hp => gives_pure ?_
  exact congrArg₂ (IndexedLoop.Expr.member .none · · .bracket) ho hp

end Stands

/-- The surface expressions stand for the expressions, one by one. -/
abbrev AllStand : List Expr → List IndexedLoop.Expr → Prop := List.Forall₂ Stands

theorem AllStand.lowers {ss : List Expr} {es : List IndexedLoop.Expr} (h : AllStand ss es)
    (file : String) : Gives (Expr.lowerAll file ss) (bareExprs · = bareExprs es) := by
  induction h with
  | nil =>
    exact gives_pure rfl
  | cons first _ ih =>
    refine (first.lowers file).bind fun e he => ih.bind fun es hes => gives_pure ?_
    exact congrArg₂ List.cons he hes

/-- A hole stands for a hole. -/
def ElementStands : Option Expr → Option IndexedLoop.Expr → Prop
  | none, none => True
  | some s, some e => s.Stands e
  | _, _ => False

theorem lowers_elements {ss : List (Option Expr)} {es : List (Option IndexedLoop.Expr)}
    (h : List.Forall₂ ElementStands ss es) (file : String) :
    Gives (Expr.lowerElements file ss) (bareElements · = bareElements es) := by
  induction h with
  | nil =>
    exact gives_pure rfl
  | @cons s e _ _ first _ ih =>
    cases s with
    | none =>
      cases e with
      | none =>
        refine ih.bind fun es hes => gives_pure ?_
        exact congrArg (none :: ·) hes
      | some e => exact first.elim
    | some s =>
      cases e with
      | none => exact first.elim
      | some e =>
        refine (Stands.lowers first file).bind fun e he => ih.bind fun es hes => gives_pure ?_
        exact congrArg₂ (some · :: ·) he hes

namespace Stands

variable {s : Expr} {e : IndexedLoop.Expr} {ss : List Expr} {es : List IndexedLoop.Expr} {x : Extent}
  {span : Span}

theorem sequence (h : AllStand ss es) : (Expr.sequence x ss).Stands (.sequence span es) := by
  refine ⟨fun file => ?_, rfl⟩
  refine (h.lowers file).bind fun es' hes => gives_pure ?_
  exact congrArg (IndexedLoop.Expr.sequence .none) hes

theorem call (h : s.Stands e) (args : AllStand ss es) : (Expr.call x s ss).Stands (.call span e es) := by
  refine ⟨fun file => ?_, rfl⟩
  refine (h.lowers file).bind fun e' he => (args.lowers file).bind fun es' hes => gives_pure ?_
  exact congrArg₂ (IndexedLoop.Expr.call .none) he hes

theorem new (h : s.Stands e) (args : AllStand ss es) : (Expr.new x s ss).Stands (.new span e es) := by
  refine ⟨fun file => ?_, rfl⟩
  refine (h.lowers file).bind fun e' he => (args.lowers file).bind fun es' hes => gives_pure ?_
  exact congrArg₂ (IndexedLoop.Expr.new .none) he hes

theorem array {ss : List (Option Expr)} {es : List (Option IndexedLoop.Expr)}
    (h : List.Forall₂ ElementStands ss es) : (Expr.array x ss).Stands (.array span es) := by
  refine ⟨fun file => ?_, rfl⟩
  refine (lowers_elements h file).bind fun es' hes => gives_pure ?_
  exact congrArg (IndexedLoop.Expr.array .none) hes

end Stands

end Expr

/-! ## Literals and keys -/

namespace Literal

/-- The surface literal stands for the literal. -/
def Stands (l : Literal) (lit : IndexedLoop.Literal) : Prop :=
  ∀ file, Gives (l.lower file) (·.bare = lit.bare)

variable {span : Span}

theorem stands_boolean (x : Extent) (value : Bool) (cs : List Char) :
    Stands ⟨x, .boolean value, cs.map .char⟩ ⟨span, .boolean value⟩ := by
  intro file
  simp only [Literal.lower, Symbol.toText_chars]
  exact gives_pure rfl

theorem stands_null (x : Extent) (cs : List Char) : Stands ⟨x, .null, cs.map .char⟩ ⟨span, .null⟩ := by
  intro file
  simp only [Literal.lower, Symbol.toText_chars]
  exact gives_pure rfl

theorem stands_regExp (x : Extent) (raw : String) :
    Stands ⟨x, .regExp, raw.toList.map .char⟩ ⟨span, .regExp raw⟩ := by
  intro file
  simp only [Literal.lower, Symbol.toText_chars, String.ofList_toList]
  exact gives_pure rfl

theorem content_quoted (raw : String) :
    Quoted.content (String.ofList ('"' :: (raw.toList ++ ['"']))) = raw := by
  have ascii : Char.utf8Size '"' = 1 := by decide
  simp [Quoted.content, Quoted.inside, ascii]

theorem stands_string (x : Extent) (raw : String) :
    Stands ⟨x, .string, ('"' :: (raw.toList ++ ['"'])).map .char⟩ ⟨span, .string raw⟩ := by
  intro file
  simp only [Literal.lower, Symbol.toText_chars, content_quoted]
  exact gives_pure rfl

/-- A number of digits and a point is no big integer. -/
theorem numberConstant?_parts (p : NumberLiteral.Parts) :
    numberConstant? (String.ofList p.text) = (NumberLiteral.read? (String.ofList p.text)).map .number := by
  rw [numberConstant?, if_neg]
  rw [String.endsWith, String.Slice.endsWith_string_iff, String.copy_toSlice]
  intro h
  have mem : 'n' ∈ p.text := by simpa using h.subset (by decide : 'n' ∈ "n".toList)
  rcases NumberLiteral.Parts.mem_text mem with digit | point
  · exact absurd digit (by decide)
  · exact absurd point (by decide)

theorem stands_number (x : Extent) {value : Binary64} {p : NumberLiteral.Parts}
    (text : numberStyle.format value = String.ofList p.text)
    (read : NumberLiteral.read? (numberStyle.format value) = some value) :
    Stands ⟨x, .number, p.text.map .char⟩ ⟨span, .number value⟩ := by
  intro file
  have constant : numberConstant? (String.ofList p.text) = some (.number value) := by
    rw [numberConstant?_parts, ← text, read, Option.map_some]
  simp only [Literal.lower, Symbol.toText_chars, constant]
  exact gives_pure rfl

end Literal

theorem Expr.Stands.literal {l : Literal} {lit : IndexedLoop.Literal} (h : l.Stands lit) :
    (Expr.literal l).Stands (.literal lit) := by
  refine ⟨fun file => ?_, rfl⟩
  refine (h file).bind fun lit' hl => gives_pure ?_
  exact congrArg IndexedLoop.Expr.literal hl

/-- The surface key stands for the key. -/
def Key.Stands (k : Key) (e : IndexedLoop.Expr) : Prop :=
  ∀ file, Gives (k.lower file) (·.bare = e.bare)

theorem Key.Stands.name (x : Extent) (id : Identifier) : (Key.name ⟨x, id.name⟩).Stands (.identifier id) :=
  fun _ => gives_pure rfl

theorem Key.Stands.literal {l : Literal} {lit : IndexedLoop.Literal} (h : l.Stands lit) :
    (Key.literal l).Stands (.literal lit) := by
  intro file
  refine (h file).bind fun lit' hl => gives_pure ?_
  exact congrArg IndexedLoop.Expr.literal hl

/-- A `key: value` stands for the property. -/
def Member.Stands (m : Member) (p : Property) : Prop :=
  ∃ x k s, m = .pair x k s ∧ k.Stands p.key ∧ s.Stands p.value

theorem Member.lowers {ms : List Member} {ps : List Property} (h : List.Forall₂ Member.Stands ms ps)
    (file : String) : Gives (Member.lowerAll file ms) (bareProperties · = bareProperties ps) := by
  induction h with
  | nil =>
    exact gives_pure rfl
  | @cons m p _ _ first _ ih =>
    obtain ⟨x, k, s, rfl, hk, hs⟩ := first
    obtain ⟨span, key, value⟩ := p
    have pair : Gives (do
        let key ← k.lower file
        return (⟨x.toSpan file, key, ← s.lower file⟩ : Property))
        (fun q => bareProperties [q] = bareProperties [⟨span, key, value⟩]) := by
      refine (hk file).bind fun key' hk' => (hs.lowers file).bind fun value' hv => gives_pure ?_
      simp only [bareProperties, hk', hv]
    refine pair.bind fun q hq => ih.bind fun ps' hps => gives_pure ?_
    obtain ⟨span', key', value'⟩ := q
    simp only [bareProperties, List.cons.injEq, and_true] at hq
    simp only [bareProperties, hq, hps]

theorem Expr.Stands.object {ms : List Member} {ps : List Property} (h : List.Forall₂ Member.Stands ms ps)
    {x : Extent} {span : Span} : (Expr.object x ms).Stands (.object span ps) := by
  refine ⟨fun file => ?_, rfl⟩
  refine Gives.orUnknown ?_ _ _ _ _
  refine (Member.lowers h file).bind fun ps' hps => gives_pure ?_
  exact congrArg (IndexedLoop.Expr.object .none) hps

/-! ## Functions -/

/-- A name stands for a parameter. -/
def Binding.Stands (b : Binding) (p : IndexedLoop.Expr) : Prop :=
  ∃ x id, b = .name ⟨x, id.name⟩ ∧ p = .identifier id

theorem Binding.lowers {bs : List Binding} {ps : List IndexedLoop.Expr}
    (h : List.Forall₂ Binding.Stands bs ps) (file : String) :
    Gives (bs.mapM (Binding.lower file)) (bareExprs · = bareExprs ps) := by
  induction h with
  | nil => exact gives_pure rfl
  | cons first _ ih =>
    obtain ⟨x, id, rfl, rfl⟩ := first
    rw [List.mapM_cons]
    have name : Gives (Binding.lower file (.name ⟨x, id.name⟩)) (·.bare = (IndexedLoop.Expr.identifier id).bare) :=
      gives_pure rfl
    refine name.bind fun p hp => ih.bind fun ps' hps => gives_pure ?_
    exact congrArg₂ List.cons hp hps

/-- The surface block stands for the block. -/
def Block.Stands (s : Block) (b : IndexedLoop.Block) : Prop :=
  ∀ file, Gives (s.lower file) (·.bare = b.bare)

/-- The parameters and the body of a function stand for these. -/
def Function.Stands (fn : Function) (params : List IndexedLoop.Expr) (body : IndexedLoop.Block) : Prop :=
  ∀ file, Gives (fn.lower file) fun r => bareExprs r.1 = bareExprs params ∧ r.2.bare = body.bare

theorem Function.Stands.mk {bs : List Binding} {ps : List IndexedLoop.Expr} {s : Block}
    {b : IndexedLoop.Block} (params : List.Forall₂ Binding.Stands bs ps) (body : s.Stands b) :
    (Function.mk bs s).Stands ps b := by
  intro file
  exact (Binding.lowers params file).bind fun ps' hps => (body file).bind fun b' hb =>
    gives_pure ⟨hps, hb⟩

theorem Expr.Stands.function {fn : Function} {params : List IndexedLoop.Expr} {body : IndexedLoop.Block}
    (h : fn.Stands params body) {name : Option Name} {id : Option Identifier}
    (hid : name.map Name.text = id.map Identifier.name) {x : Extent} {span : Span} :
    (Expr.function x name fn).Stands (.function ⟨span, id, params, body⟩) := by
  refine ⟨fun file => ?_, rfl⟩
  refine (h file).bind fun r hr => gives_pure ?_
  have names : (name.map (Name.lower file)).map Identifier.bare = id.map Identifier.bare := by
    cases name <;> cases id <;> simp_all [Identifier.bare, Name.lower]
  show IndexedLoop.Expr.function ⟨.none, _, bareExprs r.1, r.2.bare⟩ = _
  rw [names, hr.1, hr.2]
  rfl

/-! ## Statements -/

/-- A variable stands for the declarator. -/
def Declarator.Stands (d : Declarator) (v : IndexedLoop.Declarator) : Prop :=
  ∃ x y init, d = .mk x (.name ⟨y, v.id.name⟩) init ∧ Expr.ElementStands init v.init

theorem Declarator.lowers {ds : List Declarator} {vs : List IndexedLoop.Declarator}
    (h : List.Forall₂ Declarator.Stands ds vs) (file : String) :
    Gives (Declarator.lowerAll file ds) (bareDeclarators · = bareDeclarators vs) := by
  induction h with
  | nil =>
    exact gives_pure rfl
  | @cons d v _ _ first _ ih =>
    obtain ⟨x, y, init, rfl, hi⟩ := first
    obtain ⟨span, id, init'⟩ := v
    have variable_ : Gives (Declarator.lower file (.mk x (.name ⟨y, id.name⟩) init))
        (fun q => bareDeclarators [q] = bareDeclarators [⟨span, id, init'⟩]) := by
      cases init with
      | none =>
        cases init' with
        | none =>
          exact gives_pure rfl
        | some e => exact hi.elim
      | some s =>
        cases init' with
        | none => exact hi.elim
        | some e =>
          refine (Expr.Stands.lowers hi file).bind fun e' he => gives_pure ?_
          simp only [bareDeclarators, bareOption, he]
          rfl
    refine variable_.bind fun q hq => ih.bind fun vs' hvs => gives_pure ?_
    obtain ⟨span', id', init''⟩ := q
    simp only [bareDeclarators, List.cons.injEq, and_true] at hq
    simp only [bareDeclarators, hq, hvs]

/-- The surface declaration stands for the declaration. -/
def Declaration.Stands (d : Declaration) (decl : IndexedLoop.Declaration) : Prop :=
  ∀ file, Gives (d.lower file) (·.bare = decl.bare)

theorem Declaration.Stands.mk {x : Extent} {kind : DeclKind} {ds : List Declarator}
    {vs : List IndexedLoop.Declarator} (h : List.Forall₂ Declarator.Stands ds vs) {span : Span} :
    (Declaration.mk x kind ds).Stands ⟨span, kind, vs⟩ := by
  intro file
  refine (Declarator.lowers h file).bind fun vs' hvs => gives_pure ?_
  exact congrArg (IndexedLoop.Declaration.mk .none kind) hvs

/-- The surface statement stands for the statement, and if it is an expression, a semicolon is written
behind it. -/
structure Stmt.Stands (s : Stmt) (stmt : IndexedLoop.Stmt) : Prop where
  lowers : ∀ file, Gives (s.lowerForm file) (·.bare = stmt.bare)
  closed : ∀ x closed e, s = .expression x closed e → closed = true

theorem Stmt.lowers {ss : List Stmt} {stmts : List IndexedLoop.Stmt} (h : List.Forall₂ Stmt.Stands ss stmts)
    (file : String) : Gives (Stmt.lowerAll file ss) (bareStmts · = bareStmts stmts) := by
  induction h with
  | nil =>
    exact gives_pure rfl
  | cons first _ ih =>
    refine ((first.lowers file).orUnknown _ _ _ _).bind fun s hs => ih.bind fun ss' hss => gives_pure ?_
    exact congrArg₂ List.cons hs hss

theorem Block.Stands.mk {ss : List Stmt} {stmts : List IndexedLoop.Stmt}
    (h : List.Forall₂ Stmt.Stands ss stmts) {x : Extent} {span : Span} :
    (Block.mk x ss).Stands ⟨span, stmts⟩ := by
  intro file
  refine (Stmt.lowers h file).bind fun ss' hss => gives_pure ?_
  exact congrArg (IndexedLoop.Block.mk .none) hss

/-- The first clause of a header stands for the clause. -/
def ForInit.Stands (s : Option ForInit) (init : Option IndexedLoop.ForInit) : Prop :=
  ∀ file, Gives (ForInit.lower file s) (bareForInit · = bareForInit init)

theorem ForInit.Stands.none : ForInit.Stands none none := by
  intro file
  exact gives_pure rfl

theorem ForInit.Stands.declaration {d : Declaration} {decl : IndexedLoop.Declaration} (h : d.Stands decl) :
    ForInit.Stands (some (.declaration d)) (some (.declaration decl)) := by
  intro file
  refine (h file).bind fun d' hd => gives_pure ?_
  exact congrArg (some <| IndexedLoop.ForInit.declaration ·) hd

theorem ForInit.Stands.expression {s : Expr} {e : IndexedLoop.Expr} (h : s.Stands e) :
    ForInit.Stands (some (.expression s)) (some (.expression e)) := by
  intro file
  refine (h.lowers file).bind fun e' he => gives_pure ?_
  exact congrArg (some <| IndexedLoop.ForInit.expression ·) he

theorem Expr.lowers_option {s : Option Expr} {e : Option IndexedLoop.Expr} (h : ElementStands s e)
    (file : String) : Gives (Expr.lowerOption file s) (bareOption · = bareOption e) := by
  cases s with
  | none =>
    cases e with
    | none =>
      exact gives_pure rfl
    | some e => exact h.elim
  | some s =>
    cases e with
    | none => exact h.elim
    | some e =>
      refine (Stands.lowers h file).bind fun e' he => gives_pure ?_
      exact congrArg some he

namespace Stmt.Stands

variable {x : Extent} {span : Span} {s : Expr} {e : IndexedLoop.Expr} {body : Stmt}
  {stmt : IndexedLoop.Stmt}

theorem expression (h : s.Stands e) : (Stmt.expression x true s).Stands (.expression span e) := by
  refine ⟨fun file => ?_, by simp⟩
  refine (h.lowers file).bind fun e' he => gives_pure ?_
  exact congrArg (IndexedLoop.Stmt.expression .none) he

theorem declaration {d : Declaration} {decl : IndexedLoop.Declaration} (h : d.Stands decl) :
    (Stmt.declaration d).Stands (.declaration decl) := by
  refine ⟨fun file => ?_, by simp⟩
  refine (h file).bind fun d' hd => gives_pure ?_
  exact congrArg IndexedLoop.Stmt.declaration hd

theorem function {fn : Function} {params : List IndexedLoop.Expr} {b : IndexedLoop.Block}
    (h : fn.Stands params b) (y : Extent) (id : Identifier) :
    (Stmt.function x ⟨false, false⟩ ⟨y, id.name⟩ fn).Stands (.functionDecl ⟨span, id, params, b⟩) := by
  refine ⟨fun file => ?_, by simp⟩
  simp only [Stmt.lowerForm, Bool.or_self, Bool.false_eq_true, ↓reduceIte]
  refine (h file).bind fun r hr => gives_pure ?_
  exact congrArg₂ (IndexedLoop.Stmt.functionDecl ⟨.none, id.bare, ·, ·⟩) hr.1 hr.2

theorem block {b : Block} {b' : IndexedLoop.Block} (h : b.Stands b') :
    (Stmt.block b).Stands (.block b') := by
  refine ⟨fun file => ?_, by simp⟩
  refine (h file).bind fun d' hd => gives_pure ?_
  exact congrArg IndexedLoop.Stmt.block hd

theorem ret {s : Option Expr} {e : Option IndexedLoop.Expr} (h : Expr.ElementStands s e) :
    (Stmt.ret x s).Stands (.ret span e) := by
  refine ⟨fun file => ?_, by simp⟩
  refine (Expr.lowers_option h file).bind fun e' he => gives_pure ?_
  exact congrArg (IndexedLoop.Stmt.ret .none) he

theorem throw (h : s.Stands e) : (Stmt.throw x s).Stands (.throw span e) := by
  refine ⟨fun file => ?_, by simp⟩
  refine (h.lowers file).bind fun e' he => gives_pure ?_
  exact congrArg (IndexedLoop.Stmt.throw .none) he

theorem empty : (Stmt.empty x).Stands (.empty span) := by
  refine ⟨fun file => ?_, by simp⟩
  exact gives_pure rfl

theorem brk : (Stmt.brk x).Stands (.brk span) := by
  refine ⟨fun file => ?_, by simp⟩
  exact gives_pure rfl

theorem cont : (Stmt.cont x).Stands (.cont span) := by
  refine ⟨fun file => ?_, by simp⟩
  exact gives_pure rfl

theorem whileLoop (ht : s.Stands e) (hb : body.Stands stmt) :
    (Stmt.whileLoop x s body).Stands (.whileLoop ⟨span, e, stmt⟩) := by
  refine ⟨fun file => ?_, by simp⟩
  refine (ht.lowers file).bind fun e' he =>
    ((hb.lowers file).orUnknown _ _ _ _).bind fun b' hb' => gives_pure ?_
  exact congrArg₂ (IndexedLoop.Stmt.whileLoop ⟨.none, ·, ·⟩) he hb'

theorem forLoop {i : Option ForInit} {init : Option IndexedLoop.ForInit} {t u : Option Expr}
    {test update : Option IndexedLoop.Expr} (hi : ForInit.Stands i init)
    (ht : Expr.ElementStands t test) (hu : Expr.ElementStands u update) (hb : body.Stands stmt) :
    (Stmt.forLoop x i t u body).Stands (.forLoop ⟨span, init, test, update, stmt⟩) := by
  refine ⟨fun file => ?_, by simp⟩
  refine (hi file).bind fun i' hi' => (Expr.lowers_option ht file).bind fun t' ht' =>
    (Expr.lowers_option hu file).bind fun u' hu' =>
      ((hb.lowers file).orUnknown _ _ _ _).bind fun b' hb' => gives_pure ?_
  show IndexedLoop.Stmt.forLoop ⟨.none, bareForInit i', bareOption t', bareOption u', b'.bare⟩ = _
  rw [hi', ht', hu', hb']
  rfl

theorem ifThen (ht : s.Stands e) (hc : body.Stands stmt) :
    (Stmt.ifElse x s body none).Stands (.ifElse ⟨span, e, stmt, none⟩) := by
  refine ⟨fun file => ?_, by simp⟩
  have absent : Gives (Stmt.lowerOption file none) (· = none) := by
    exact gives_pure rfl
  refine absent.bind fun a' ha => (ht.lowers file).bind fun e' he =>
    ((hc.lowers file).orUnknown _ _ _ _).bind fun b' hb' => gives_pure ?_
  rw [ha]
  exact congrArg₂ (IndexedLoop.Stmt.ifElse ⟨.none, ·, ·, none⟩) he hb'

theorem ifElse {other : Stmt} {alternate : IndexedLoop.Stmt} (ht : s.Stands e) (hc : body.Stands stmt)
    (ha : other.Stands alternate) :
    (Stmt.ifElse x s body (some other)).Stands (.ifElse ⟨span, e, stmt, some alternate⟩) := by
  refine ⟨fun file => ?_, by simp⟩
  have present : Gives (Stmt.lowerOption file (some other))
      (fun r => ∃ a, r = some a ∧ a.bare = alternate.bare) := by
    exact ((ha.lowers file).orUnknown _ _ _ _).bind fun a ha' => gives_pure ⟨a, rfl, ha'⟩
  refine present.bind fun a' ⟨a, ea, ha'⟩ => (ht.lowers file).bind fun e' he =>
    ((hc.lowers file).orUnknown _ _ _ _).bind fun b' hb' => gives_pure ?_
  rw [ea]
  show IndexedLoop.Stmt.ifElse ⟨.none, e'.bare, b'.bare, some a.bare⟩ = _
  rw [he, hb', ha']
  rfl

end Stmt.Stands

end Surface

end IndexedLoop
