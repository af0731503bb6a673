import IndexedLoop.CommandLine
import IndexedLoop.Proofs.DumpNumbers
import IndexedLoop.Proofs.Subtrees

/-!
# A dump shows all of a tree

Two programs with the same dump are the same, spans and number bits included. The dump of a tree is written with
names and numbers that can be told apart (`Expr.wellFormed_dump` and the theorems beside it), so its text determines
the s-expression (`Sexpr.text_injective`); and the s-expression determines the tree, because every kind of node has a
name of its own and shows all of its fields (`Expr.dump_inj` and the theorems beside it). A value that may be absent
is a list of at most one item, so that a hole of an array is not mistaken for the end of it.
-/

namespace IndexedLoop

open Sexpr

/-! ## Lists of fields -/

namespace Sexpr

@[simp]
theorem named_inj {a b : String} {x y : Sexpr} : named a x = named b y ↔ a = b ∧ x = y := by
  simp [named]

@[simp]
theorem list_inj {xs ys : List Sexpr} : list xs = list ys ↔ xs = ys := by
  induction xs generalizing ys with
  | nil => cases ys <;> simp [list]
  | cons x xs ih =>
    cases ys with
    | nil => simp [list]
    | cons y ys => simpa [list] using fun _ => ih

@[simp]
theorem option_inj {x y : Option Sexpr} : option x = option y ↔ x = y := by
  cases x <;> cases y <;> simp [option, list]

@[simp]
theorem fields_cons_inj {a b : String} {x y : Sexpr} {fs gs : List (String × Sexpr)} :
    fields ((a, x) :: fs) = fields ((b, y) :: gs) ↔ a = b ∧ x = y ∧ fields fs = fields gs := by
  simp [fields, list, named, and_assoc]

@[simp]
theorem nat_inj {m n : Nat} : nat m = nat n ↔ m = n := by
  simp [nat, Nat.repr_inj]

@[simp]
theorem wellFormed_named {name : String} {x : Sexpr} :
    (named name x).WellFormed ↔ isName name = true ∧ x.WellFormed := Iff.rfl

theorem wellFormed_list {xs : List Sexpr} (h : ∀ x ∈ xs, x.WellFormed) : (list xs).WellFormed := by
  induction xs with
  | nil => trivial
  | cons x xs ih =>
    rw [List.forall_mem_cons] at h
    exact ⟨h.1, ih h.2⟩

theorem wellFormed_option {x : Option Sexpr} (h : ∀ y ∈ x, y.WellFormed) : (option x).WellFormed := by
  cases x with
  | none => trivial
  | some y => exact wellFormed_list (by simpa using h)

@[simp]
theorem wellFormed_fields_nil : (fields []).WellFormed := trivial

@[simp]
theorem wellFormed_fields_cons {name : String} {x : Sexpr} {fs : List (String × Sexpr)} :
    (fields ((name, x) :: fs)).WellFormed ↔ (isName name = true ∧ x.WellFormed) ∧ (fields fs).WellFormed :=
  Iff.rfl

@[simp]
theorem wellFormed_nat (n : Nat) : (nat n).WellFormed := by
  have digits (c : Char) (hc : c ∈ (toString n).toList) : numberStart c = true := by
    simp [numberStart, isDigit_of_mem_toString hc]
  obtain ⟨c, rest, e⟩ := List.exists_cons_of_ne_nil (show (toString n).toList ≠ [] by simp)
  exact ⟨⟨c, List.head?_eq_some_iff.mpr ⟨rest, e⟩, digits c (e ▸ List.mem_cons_self)⟩,
    fun d hd => by simp [numberChar, digits d hd]⟩

end Sexpr

/-! ## Operators -/

/-- Names that can be read back are different. -/
theorem injective_of_read {α : Type} {name : α → String} (read? : String → Option α)
    (h : ∀ a, read? (name a) = some a) : Function.Injective name := by
  intro a b e
  have := h a
  rw [e, h b] at this
  exact (Option.some.inj this).symm

theorem BinaryOp.name_injective : Function.Injective BinaryOp.name :=
  injective_of_read ofName? fun op => by cases op <;> decide

theorem AssignOp.name_injective : Function.Injective AssignOp.name :=
  injective_of_read ofName? fun op => by cases op <;> decide

theorem UnaryOp.name_injective : Function.Injective UnaryOp.name :=
  injective_of_read ofName? fun op => by cases op <;> decide

theorem UpdateOp.name_injective : Function.Injective UpdateOp.name :=
  injective_of_read ofName? fun op => by cases op <;> decide

theorem DeclKind.name_injective : Function.Injective DeclKind.name := by
  intro a b e
  cases a <;> cases b <;> simp [name] at e ⊢

@[simp]
theorem BinaryOp.isName_name (op : BinaryOp) : isName op.name = true := by cases op <;> decide

@[simp]
theorem AssignOp.isName_name (op : AssignOp) : isName op.name = true := by cases op <;> decide

@[simp]
theorem UnaryOp.isName_name (op : UnaryOp) : isName op.name = true := by cases op <;> decide

@[simp]
theorem UpdateOp.isName_name (op : UpdateOp) : isName op.name = true := by cases op <;> decide

@[simp]
theorem DeclKind.isName_name (kind : DeclKind) : isName kind.name = true := by cases kind <;> decide

/-! ## Leaves -/

@[simp]
theorem Span.dump_inj {s t : Span} : s.dump = t.dump ↔ s = t := by
  obtain ⟨_, ⟨_, _⟩, ⟨_, _⟩, _, _⟩ := s
  obtain ⟨_, ⟨_, _⟩, ⟨_, _⟩, _, _⟩ := t
  simp [Span.dump, Point.dump, fields_cons_inj, nat_inj]

@[simp]
theorem Identifier.dump_inj {a b : Identifier} : a.dump = b.dump ↔ a = b := by
  cases a
  cases b
  simp [Identifier.dump, fields_cons_inj, Span.dump_inj]

@[simp]
theorem Unknown.dump_inj {a b : Unknown} : a.dump = b.dump ↔ a = b := by
  cases a
  cases b
  simp [Unknown.dump, fields_cons_inj, Span.dump_inj]

@[simp]
theorem Access.dump_inj {a b : Access} : a.dump = b.dump ↔ a = b := by
  cases a <;> cases b <;> simp [Access.dump, named]

/-- A constant that is a number is a finite one. -/
def Constant.FiniteNumber (c : Constant) : Prop := ∀ x, c = .number x → x.isFinite = true

theorem Constant.dump_inj {a b : Constant} (ha : a.FiniteNumber) (hb : b.FiniteNumber) (h : a.dump = b.dump) :
    a = b := by
  cases a <;> cases b <;> simp [Constant.dump, named, fields_cons_inj] at h ⊢
  case string.string | boolean.boolean | regExp.regExp | other.other => exact h
  case number.number x y => exact NumberLiteral.format_injective (ha x rfl) (hb y rfl) h

theorem Literal.dump_inj {a b : Literal} (ha : a.value.FiniteNumber) (hb : b.value.FiniteNumber)
    (h : a.dump = b.dump) : a = b := by
  obtain ⟨_, x⟩ := a
  obtain ⟨_, y⟩ := b
  simp only [Literal.dump, fields_cons_inj, Span.dump_inj, true_and, and_true] at h
  obtain rfl : x = y := Constant.dump_inj ha hb h.2
  rw [h.1]

@[simp]
theorem Span.wellFormed_dump (s : Span) : s.dump.WellFormed := by
  simp +decide [Span.dump, wellFormed_fields_cons, wellFormed_fields_nil, Point.dump, WellFormed, wellFormed_nat]

@[simp]
theorem Identifier.wellFormed_dump (id : Identifier) : id.dump.WellFormed := by
  simp +decide [Identifier.dump, wellFormed_fields_cons, wellFormed_fields_nil, WellFormed, Span.wellFormed_dump]

@[simp]
theorem Unknown.wellFormed_dump (node : Unknown) : node.dump.WellFormed := by
  simp +decide [Unknown.dump, wellFormed_fields_cons, wellFormed_fields_nil, WellFormed, Span.wellFormed_dump]

@[simp]
theorem Access.wellFormed_dump (a : Access) : a.dump.WellFormed := by
  cases a <;> simp +decide [Access.dump, wellFormed_named, WellFormed]

theorem Constant.wellFormed_dump {c : Constant} (h : c.FiniteNumber) : c.dump.WellFormed := by
  cases c with
  | number x => exact ⟨rfl, NumberLiteral.format_wellFormed (h x rfl)⟩
  | _ =>
    simp +decide [Constant.dump, wellFormed_named, wellFormed_fields_cons, wellFormed_fields_nil, WellFormed]

theorem Literal.wellFormed_dump {lit : Literal} (h : lit.value.FiniteNumber) : lit.dump.WellFormed := by
  simp +decide [Literal.dump, wellFormed_fields_cons, wellFormed_fields_nil, Span.wellFormed_dump,
    Constant.wellFormed_dump h]

/-! ## Trees -/

namespace Subtree

/-- The numbers in a subtree are finite. -/
def FiniteNumbers (t : Subtree) : Prop := ∀ lit, .expr (.literal lit) ∈ t.events → lit.value.FiniteNumber

/-- The numbers in a child are numbers of the parent. -/
theorem FiniteNumbers.below {t child : Subtree} (h : t.FiniteNumbers) (mem : child ∈ t.children) :
    child.FiniteNumbers := by
  intro lit met
  refine h lit ?_
  rw [events_eq]
  exact List.mem_append_right _ (List.mem_flatMap.mpr ⟨child, mem, met⟩)

section Heads

variable {loop : ForLoop} {branch : IfElse}

theorem mem_init {init : ForInit} (h : init ∈ loop.init) :
    init.subtree ∈ (Subtree.stmt (.forLoop loop)).children :=
  List.mem_append_left _ (List.mem_append_left _ (List.mem_append_left _
    (List.mem_map_of_mem (Option.mem_toList.mpr h))))

theorem mem_test {test : Expr} (h : test ∈ loop.test) : .expr test ∈ (Subtree.stmt (.forLoop loop)).children :=
  List.mem_append_left _ (List.mem_append_left _ (List.mem_append_right _
    (List.mem_map_of_mem (Option.mem_toList.mpr h))))

theorem mem_update {update : Expr} (h : update ∈ loop.update) :
    .expr update ∈ (Subtree.stmt (.forLoop loop)).children :=
  List.mem_append_left _ (List.mem_append_right _ (List.mem_map_of_mem (Option.mem_toList.mpr h)))

theorem mem_alternate {s : Stmt} (h : s ∈ branch.alternate) :
    .stmt s ∈ (Subtree.stmt (.ifElse branch)).children :=
  List.mem_append_right _ (List.mem_map_of_mem (Option.mem_toList.mpr h))

end Heads

end Subtree

open Subtree (mem_init mem_test mem_update mem_alternate)

/-! A node with fields shows its fields. -/

@[simp]
theorem Expr.dump_function (fn : Function) : (Expr.function fn).dump =
    named "Function" (fields [("span", fn.span.dump), ("id", option (fn.id.map Identifier.dump)),
      ("params", list (dumpExprs fn.params)), ("body", fn.body.dump)]) := by
  cases fn
  rw [Expr.dump]

@[simp]
theorem Stmt.dump_functionDecl (fn : FunctionDecl) : (Stmt.functionDecl fn).dump =
    named "FunctionDeclaration" (fields [("span", fn.span.dump), ("id", fn.id.dump),
      ("params", list (dumpExprs fn.params)), ("body", fn.body.dump)]) := by
  cases fn
  rw [Stmt.dump]

@[simp]
theorem Stmt.dump_forLoop (loop : ForLoop) : (Stmt.forLoop loop).dump =
    named "For" (fields [("span", loop.span.dump), ("init", dumpForInit loop.init), ("test", dumpOption loop.test),
      ("update", dumpOption loop.update), ("body", loop.body.dump)]) := by
  cases loop
  rw [Stmt.dump]

@[simp]
theorem Stmt.dump_whileLoop (loop : WhileLoop) : (Stmt.whileLoop loop).dump =
    named "While" (fields [("span", loop.span.dump), ("test", loop.test.dump), ("body", loop.body.dump)]) := by
  cases loop
  rw [Stmt.dump]

@[simp]
theorem Stmt.dump_ifElse (branch : IfElse) : (Stmt.ifElse branch).dump =
    named "If" (fields [("span", branch.span.dump), ("test", branch.test.dump),
      ("consequent", branch.consequent.dump), ("alternate", dumpStmtOption branch.alternate)]) := by
  cases branch
  rw [Stmt.dump]

/-! ### The dump of a tree determines it -/

mutual

/-- The dump of an expression determines it. -/
theorem Expr.dump_inj : (e e' : Expr) → (Subtree.expr e).FiniteNumbers → (Subtree.expr e').FiniteNumbers →
    e.dump = e'.dump → e = e'
  | .assignment _ _ left right, e', h, h', eq => by
    cases e' <;> simp [Expr.dump] at eq
    obtain ⟨rfl, op, eql, eqr⟩ := eq
    rw [AssignOp.name_injective op, left.dump_inj _ (h.below (.head _)) (h'.below (.head _)) eql,
      right.dump_inj _ (h.below (.tail _ (.head _))) (h'.below (.tail _ (.head _))) eqr]
  | .binary _ _ left right, e', h, h', eq => by
    cases e' <;> simp [Expr.dump] at eq
    obtain ⟨rfl, op, eql, eqr⟩ := eq
    rw [BinaryOp.name_injective op, left.dump_inj _ (h.below (.head _)) (h'.below (.head _)) eql,
      right.dump_inj _ (h.below (.tail _ (.head _))) (h'.below (.tail _ (.head _))) eqr]
  | .unary _ _ argument, e', h, h', eq => by
    cases e' <;> simp [Expr.dump] at eq
    obtain ⟨rfl, op, eqa⟩ := eq
    rw [UnaryOp.name_injective op, argument.dump_inj _ (h.below (.head _)) (h'.below (.head _)) eqa]
  | .sequence _ expressions, e', h, h', eq => by
    cases e' <;> simp [Expr.dump] at eq
    obtain ⟨rfl, eqs⟩ := eq
    rw [dumpExprs_inj expressions _ (fun _ mem => h.below (List.mem_map_of_mem mem))
      (fun _ mem => h'.below (List.mem_map_of_mem mem)) eqs]
  | .update _ _ _ argument, e', h, h', eq => by
    cases e' <;> simp [Expr.dump] at eq
    obtain ⟨rfl, op, rfl, eqa⟩ := eq
    rw [UpdateOp.name_injective op, argument.dump_inj _ (h.below (.head _)) (h'.below (.head _)) eqa]
  | .function ⟨_, id, params, body⟩, e', h, h', eq => by
    cases e' <;> simp [Expr.dump] at eq
    case function fn =>
      obtain ⟨_, id', params', body'⟩ := fn
      obtain ⟨rfl, eqi, eqp, eqb⟩ := eq
      rw [Option.map_injective (fun _ _ => Identifier.dump_inj.mp) eqi,
        dumpExprs_inj params params'
          (fun _ mem => h.below (List.mem_append_left _ (List.mem_append_right _ (List.mem_map_of_mem mem))))
          (fun _ mem => h'.below (List.mem_append_left _ (List.mem_append_right _ (List.mem_map_of_mem mem)))) eqp,
        body.dump_inj body' (h.below (List.mem_append_right _ (.head _)))
          (h'.below (List.mem_append_right _ (.head _))) eqb]
  | .call _ callee arguments, e', h, h', eq | .new _ callee arguments, e', h, h', eq => by
    cases e' <;> simp [Expr.dump] at eq
    obtain ⟨rfl, eqc, eqs⟩ := eq
    rw [callee.dump_inj _ (h.below (.head _)) (h'.below (.head _)) eqc,
      dumpExprs_inj arguments _ (fun _ mem => h.below (.tail _ (List.mem_map_of_mem mem)))
        (fun _ mem => h'.below (.tail _ (List.mem_map_of_mem mem))) eqs]
  | .conditional _ test consequent alternate, e', h, h', eq => by
    cases e' <;> simp [Expr.dump] at eq
    obtain ⟨rfl, eqt, eqc, eqa⟩ := eq
    rw [test.dump_inj _ (h.below (.head _)) (h'.below (.head _)) eqt,
      consequent.dump_inj _ (h.below (.tail _ (.head _))) (h'.below (.tail _ (.head _))) eqc,
      alternate.dump_inj _ (h.below (.tail _ (.tail _ (.head _)))) (h'.below (.tail _ (.tail _ (.head _)))) eqa]
  | .member _ object property _, e', h, h', eq => by
    cases e' <;> simp [Expr.dump] at eq
    obtain ⟨rfl, eqo, eqp, rfl⟩ := eq
    rw [object.dump_inj _ (h.below (.head _)) (h'.below (.head _)) eqo,
      property.dump_inj _ (h.below (.tail _ (.head _))) (h'.below (.tail _ (.head _))) eqp]
  | .object _ properties, e', h, h', eq => by
    cases e' <;> simp [Expr.dump] at eq
    obtain ⟨rfl, eqs⟩ := eq
    rw [dumpProperties_inj properties _ (fun _ mem => h.below (List.mem_map_of_mem mem))
      (fun _ mem => h'.below (List.mem_map_of_mem mem)) eqs]
  | .array _ elements, e', h, h', eq => by
    cases e' <;> simp [Expr.dump] at eq
    obtain ⟨rfl, eqs⟩ := eq
    rw [dumpElements_inj elements _
      (fun _ mem => h.below (List.mem_map_of_mem (List.reduceOption_mem_iff.mpr mem)))
      (fun _ mem => h'.below (List.mem_map_of_mem (List.reduceOption_mem_iff.mpr mem))) eqs]
  | .this _, e', h, h', eq => by
    cases e' <;> simp [Expr.dump] at eq
    rw [eq]
  | .identifier _, e', h, h', eq => by
    cases e' <;> simp [Expr.dump] at eq
    rw [eq]
  | .literal lit, e', h, h', eq => by
    cases e' <;> simp [Expr.dump] at eq
    rw [Literal.dump_inj (h lit (by simp [Subtree.events, Expr.events]))
      (h' _ (by simp [Subtree.events, Expr.events])) eq]
  | .unknown _, e', h, h', eq => by
    cases e' <;> simp [Expr.dump] at eq
    rw [eq]
  termination_by structural x => x

theorem dumpExprs_inj : (es es' : List Expr) → (∀ e ∈ es, (Subtree.expr e).FiniteNumbers) →
    (∀ e ∈ es', (Subtree.expr e).FiniteNumbers) → dumpExprs es = dumpExprs es' → es = es'
  | [], es', h, h', eq => by
    cases es' with
    | nil => rfl
    | cons e' rest' => simp [dumpExprs] at eq
  | e :: rest, es', h, h', eq => by
    cases es' with
    | nil => simp [dumpExprs] at eq
    | cons e' rest' =>
      simp only [dumpExprs, List.cons.injEq] at eq
      rw [List.forall_mem_cons] at h h'
      rw [e.dump_inj e' h.1 h'.1 eq.1, dumpExprs_inj rest rest' h.2 h'.2 eq.2]
  termination_by structural x => x

theorem dumpElements_inj : (es es' : List (Option Expr)) → (∀ e, some e ∈ es → (Subtree.expr e).FiniteNumbers) →
    (∀ e, some e ∈ es' → (Subtree.expr e).FiniteNumbers) → dumpElements es = dumpElements es' → es = es'
  | [], es', h, h', eq => by
    cases es' with
    | nil => rfl
    | cons e' rest' => cases e' <;> simp [dumpElements] at eq
  | none :: rest, es', h, h', eq => by
    cases es' with
    | nil => simp [dumpElements] at eq
    | cons e' rest' =>
      cases e' <;> simp [dumpElements] at eq
      rw [dumpElements_inj rest rest' (fun e mem => h e (.tail _ mem)) (fun e mem => h' e (.tail _ mem)) eq]
  | some e :: rest, es', h, h', eq => by
    cases es' with
    | nil => simp [dumpElements] at eq
    | cons e' rest' =>
      cases e' <;> simp [dumpElements] at eq
      rw [e.dump_inj _ (h e (.head _)) (h' _ (.head _)) eq.1,
        dumpElements_inj rest rest' (fun e mem => h e (.tail _ mem)) (fun e mem => h' e (.tail _ mem)) eq.2]
  termination_by structural x => x

theorem dumpProperties_inj : (ps ps' : List Property) → (∀ p ∈ ps, (Subtree.property p).FiniteNumbers) →
    (∀ p ∈ ps', (Subtree.property p).FiniteNumbers) → dumpProperties ps = dumpProperties ps' → ps = ps'
  | [], ps', h, h', eq => by
    cases ps' with
    | nil => rfl
    | cons p' rest' =>
      obtain ⟨_, _, _⟩ := p'
      simp [dumpProperties] at eq
  | ⟨_, key, value⟩ :: rest, ps', h, h', eq => by
    cases ps' with
    | nil => simp [dumpProperties] at eq
    | cons p' rest' =>
      obtain ⟨_, key', value'⟩ := p'
      simp [dumpProperties] at eq
      obtain ⟨⟨rfl, eqk, eqv⟩, eqr⟩ := eq
      rw [List.forall_mem_cons] at h h'
      rw [key.dump_inj _ (h.1.below (.head _)) (h'.1.below (.head _)) eqk,
        value.dump_inj _ (h.1.below (.tail _ (.head _))) (h'.1.below (.tail _ (.head _))) eqv,
        dumpProperties_inj rest rest' h.2 h'.2 eqr]
  termination_by structural x => x

theorem dumpOption_inj : (e e' : Option Expr) → (∀ x ∈ e, (Subtree.expr x).FiniteNumbers) →
    (∀ x ∈ e', (Subtree.expr x).FiniteNumbers) → dumpOption e = dumpOption e' → e = e'
  | none, e', h, h', eq => by
    cases e' <;> simp [dumpOption] at eq ⊢
  | some e, e', h, h', eq => by
    cases e' <;> simp [dumpOption] at eq
    rw [e.dump_inj _ (h e rfl) (h' _ rfl) eq]
  termination_by structural x => x

theorem Block.dump_inj : (b b' : Block) → (Subtree.block b).FiniteNumbers → (Subtree.block b').FiniteNumbers →
    b.dump = b'.dump → b = b'
  | ⟨_, body⟩, ⟨_, body'⟩, h, h', eq => by
    simp [Block.dump] at eq
    obtain ⟨rfl, eqs⟩ := eq
    rw [dumpStmts_inj body body' (fun _ mem => h.below (List.mem_map_of_mem mem))
      (fun _ mem => h'.below (List.mem_map_of_mem mem)) eqs]
  termination_by structural x => x

theorem dumpDeclarators_inj : (ds ds' : List Declarator) → (∀ d ∈ ds, (Subtree.declarator d).FiniteNumbers) →
    (∀ d ∈ ds', (Subtree.declarator d).FiniteNumbers) → dumpDeclarators ds = dumpDeclarators ds' → ds = ds'
  | [], ds', h, h', eq => by
    cases ds' with
    | nil => rfl
    | cons d' rest' =>
      obtain ⟨_, _, _⟩ := d'
      simp [dumpDeclarators] at eq
  | ⟨_, _, init⟩ :: rest, ds', h, h', eq => by
    cases ds' with
    | nil => simp [dumpDeclarators] at eq
    | cons d' rest' =>
      obtain ⟨_, _, init'⟩ := d'
      simp [dumpDeclarators] at eq
      obtain ⟨⟨rfl, rfl, eqi⟩, eqr⟩ := eq
      rw [List.forall_mem_cons] at h h'
      rw [dumpOption_inj init init' (fun _ mem => h.1.below (.tail _ (List.mem_map_of_mem (Option.mem_toList.mpr mem))))
          (fun _ mem => h'.1.below (.tail _ (List.mem_map_of_mem (Option.mem_toList.mpr mem)))) eqi,
        dumpDeclarators_inj rest rest' h.2 h'.2 eqr]
  termination_by structural x => x

theorem Declaration.dump_inj : (d d' : Declaration) → (Subtree.declaration d).FiniteNumbers →
    (Subtree.declaration d').FiniteNumbers → d.dump = d'.dump → d = d'
  | ⟨_, _, declarators⟩, ⟨_, _, declarators'⟩, h, h', eq => by
    simp [Declaration.dump] at eq
    obtain ⟨rfl, kind, eqs⟩ := eq
    rw [DeclKind.name_injective kind,
      dumpDeclarators_inj declarators declarators' (fun _ mem => h.below (List.mem_map_of_mem mem))
        (fun _ mem => h'.below (List.mem_map_of_mem mem)) eqs]
  termination_by structural x => x

theorem dumpForInit_inj : (i i' : Option ForInit) → (∀ x ∈ i, x.subtree.FiniteNumbers) →
    (∀ x ∈ i', x.subtree.FiniteNumbers) → dumpForInit i = dumpForInit i' → i = i'
  | none, i', h, h', eq => by
    rcases i' with - | (d' | e') <;> simp [dumpForInit] at eq ⊢
  | some (.declaration d), i', h, h', eq => by
    rcases i' with - | (d' | e') <;> simp [dumpForInit] at eq
    rw [d.dump_inj d' (h _ rfl) (h' _ rfl) eq]
  | some (.expression e), i', h, h', eq => by
    rcases i' with - | (d' | e') <;> simp [dumpForInit] at eq
    rw [e.dump_inj e' (h _ rfl) (h' _ rfl) eq]
  termination_by structural x => x

/-- The dump of a statement determines it. -/
theorem Stmt.dump_inj : (s s' : Stmt) → (Subtree.stmt s).FiniteNumbers → (Subtree.stmt s').FiniteNumbers →
    s.dump = s'.dump → s = s'
  | .declaration decl, s', h, h', eq => by
    cases s' <;> simp [Stmt.dump] at eq
    rw [decl.dump_inj _ (h.below (.head _)) (h'.below (.head _)) eq]
  | .functionDecl ⟨_, _, params, body⟩, s', h, h', eq => by
    cases s' <;> simp [Stmt.dump] at eq
    case functionDecl fn =>
      obtain ⟨_, _, params', body'⟩ := fn
      obtain ⟨rfl, rfl, eqp, eqb⟩ := eq
      rw [dumpExprs_inj params params'
          (fun _ mem => h.below (List.mem_append_left _ (.tail _ (List.mem_map_of_mem mem))))
          (fun _ mem => h'.below (List.mem_append_left _ (.tail _ (List.mem_map_of_mem mem)))) eqp,
        body.dump_inj body' (h.below (List.mem_append_right _ (.head _)))
          (h'.below (List.mem_append_right _ (.head _))) eqb]
  | .block b, s', h, h', eq => by
    cases s' <;> simp [Stmt.dump] at eq
    rw [b.dump_inj _ (h.below (.head _)) (h'.below (.head _)) eq]
  | .ret _ argument, s', h, h', eq => by
    cases s' <;> simp [Stmt.dump] at eq
    obtain ⟨rfl, eqa⟩ := eq
    rw [dumpOption_inj argument _ (fun _ mem => h.below (List.mem_map_of_mem (Option.mem_toList.mpr mem)))
      (fun _ mem => h'.below (List.mem_map_of_mem (Option.mem_toList.mpr mem))) eqa]
  | .forLoop ⟨_, init, test, update, body⟩, s', h, h', eq => by
    cases s' <;> simp [Stmt.dump] at eq
    case forLoop loop =>
      obtain ⟨_, init', test', update', body'⟩ := loop
      obtain ⟨rfl, eqi, eqt, equ, eqb⟩ := eq
      rw [dumpForInit_inj init init' (fun _ mem => h.below (mem_init mem)) (fun _ mem => h'.below (mem_init mem)) eqi,
        dumpOption_inj test test' (fun _ mem => h.below (mem_test mem)) (fun _ mem => h'.below (mem_test mem)) eqt,
        dumpOption_inj update update' (fun _ mem => h.below (mem_update mem))
          (fun _ mem => h'.below (mem_update mem)) equ,
        body.dump_inj body' (h.below (List.mem_append_right _ (.head _)))
          (h'.below (List.mem_append_right _ (.head _))) eqb]
  | .whileLoop ⟨_, test, body⟩, s', h, h', eq => by
    cases s' <;> simp [Stmt.dump] at eq
    case whileLoop loop =>
      obtain ⟨_, test', body'⟩ := loop
      obtain ⟨rfl, eqt, eqb⟩ := eq
      rw [test.dump_inj test' (h.below (.head _)) (h'.below (.head _)) eqt,
        body.dump_inj body' (h.below (.tail _ (.head _))) (h'.below (.tail _ (.head _))) eqb]
  | .ifElse ⟨_, test, consequent, alternate⟩, s', h, h', eq => by
    cases s' <;> simp [Stmt.dump] at eq
    case ifElse branch =>
      obtain ⟨_, test', consequent', alternate'⟩ := branch
      obtain ⟨rfl, eqt, eqc, eqa⟩ := eq
      rw [test.dump_inj test' (h.below (.head _)) (h'.below (.head _)) eqt,
        consequent.dump_inj consequent' (h.below (.tail _ (.head _))) (h'.below (.tail _ (.head _))) eqc,
        dumpStmtOption_inj alternate alternate' (fun _ mem => h.below (mem_alternate mem))
          (fun _ mem => h'.below (mem_alternate mem)) eqa]
  | .brk _, s', h, h', eq | .cont _, s', h, h', eq | .empty _, s', h, h', eq | .unknown _, s', h, h', eq => by
    cases s' <;> simp [Stmt.dump] at eq
    rw [eq]
  | .throw _ argument, s', h, h', eq | .expression _ argument, s', h, h', eq => by
    cases s' <;> simp [Stmt.dump] at eq
    obtain ⟨rfl, eqa⟩ := eq
    rw [argument.dump_inj _ (h.below (.head _)) (h'.below (.head _)) eqa]
  termination_by structural x => x

theorem dumpStmtOption_inj : (s s' : Option Stmt) → (∀ x ∈ s, (Subtree.stmt x).FiniteNumbers) →
    (∀ x ∈ s', (Subtree.stmt x).FiniteNumbers) → dumpStmtOption s = dumpStmtOption s' → s = s'
  | none, s', h, h', eq => by
    cases s' <;> simp [dumpStmtOption] at eq ⊢
  | some s, s', h, h', eq => by
    cases s' <;> simp [dumpStmtOption] at eq
    rw [s.dump_inj _ (h s rfl) (h' _ rfl) eq]
  termination_by structural x => x

theorem dumpStmts_inj : (ss ss' : List Stmt) → (∀ s ∈ ss, (Subtree.stmt s).FiniteNumbers) →
    (∀ s ∈ ss', (Subtree.stmt s).FiniteNumbers) → dumpStmts ss = dumpStmts ss' → ss = ss'
  | [], ss', h, h', eq => by
    cases ss' with
    | nil => rfl
    | cons s' rest' => simp [dumpStmts] at eq
  | s :: rest, ss', h, h', eq => by
    cases ss' with
    | nil => simp [dumpStmts] at eq
    | cons s' rest' =>
      simp only [dumpStmts, List.cons.injEq] at eq
      rw [List.forall_mem_cons] at h h'
      rw [s.dump_inj s' h.1 h'.1 eq.1, dumpStmts_inj rest rest' h.2 h'.2 eq.2]
  termination_by structural x => x

end

/-! ### The dump of a tree is written with names and numbers -/

mutual

/-- The dump of an expression is well formed. -/
theorem Expr.wellFormed_dump : (e : Expr) → (Subtree.expr e).FiniteNumbers → e.dump.WellFormed
  | .assignment _ _ left right, h | .binary _ _ left right, h => by
    have hl := left.wellFormed_dump (h.below (.head _))
    have hr := right.wellFormed_dump (h.below (.tail _ (.head _)))
    simp +decide [Expr.dump, WellFormed, hl, hr]
  | .unary _ _ argument, h | .update _ _ _ argument, h => by
    have ha := argument.wellFormed_dump (h.below (.head _))
    simp +decide [Expr.dump, WellFormed, ha]
  | .sequence _ expressions, h => by
    have hs := wellFormed_dumpExprs expressions fun _ mem => h.below (List.mem_map_of_mem mem)
    simp +decide [Expr.dump, wellFormed_list hs]
  | .function ⟨_, id, params, body⟩, h => by
    have hi : (option (id.map Identifier.dump)).WellFormed := wellFormed_option (by simp)
    have hp := wellFormed_dumpExprs params fun _ mem =>
      h.below (List.mem_append_left _ (List.mem_append_right _ (List.mem_map_of_mem mem)))
    have hb := body.wellFormed_dump (h.below (List.mem_append_right _ (.head _)))
    simp +decide [Expr.dump, hi, wellFormed_list hp, hb]
  | .call _ callee arguments, h | .new _ callee arguments, h => by
    have hc := callee.wellFormed_dump (h.below (.head _))
    have hs := wellFormed_dumpExprs arguments fun _ mem => h.below (.tail _ (List.mem_map_of_mem mem))
    simp +decide [Expr.dump, hc, wellFormed_list hs]
  | .conditional _ test consequent alternate, h => by
    have ht := test.wellFormed_dump (h.below (.head _))
    have hc := consequent.wellFormed_dump (h.below (.tail _ (.head _)))
    have ha := alternate.wellFormed_dump (h.below (.tail _ (.tail _ (.head _))))
    simp +decide [Expr.dump, ht, hc, ha]
  | .member _ object property _, h => by
    have ho := object.wellFormed_dump (h.below (.head _))
    have hp := property.wellFormed_dump (h.below (.tail _ (.head _)))
    simp +decide [Expr.dump, ho, hp]
  | .object _ properties, h => by
    have hs := wellFormed_dumpProperties properties fun _ mem => h.below (List.mem_map_of_mem mem)
    simp +decide [Expr.dump, wellFormed_list hs]
  | .array _ elements, h => by
    have hs := wellFormed_dumpElements elements fun _ mem =>
      h.below (List.mem_map_of_mem (List.reduceOption_mem_iff.mpr mem))
    simp +decide [Expr.dump, wellFormed_list hs]
  | .this _, _ | .identifier _, _ | .unknown _, _ => by simp +decide [Expr.dump]
  | .literal lit, h => by
    have hl := Literal.wellFormed_dump (h lit (by simp [Subtree.events, Expr.events]))
    simp +decide [Expr.dump, hl]
  termination_by structural x => x

theorem wellFormed_dumpExprs : (es : List Expr) → (∀ e ∈ es, (Subtree.expr e).FiniteNumbers) →
    ∀ x ∈ dumpExprs es, x.WellFormed
  | [], _ => by simp [dumpExprs]
  | e :: rest, h => by
    rw [List.forall_mem_cons] at h
    exact List.forall_mem_cons.mpr ⟨e.wellFormed_dump h.1, wellFormed_dumpExprs rest h.2⟩
  termination_by structural x => x

theorem wellFormed_dumpElements : (es : List (Option Expr)) → (∀ e, some e ∈ es → (Subtree.expr e).FiniteNumbers) →
    ∀ x ∈ dumpElements es, x.WellFormed
  | [], _ => by simp [dumpElements]
  | none :: rest, h =>
    List.forall_mem_cons.mpr ⟨trivial, wellFormed_dumpElements rest fun e mem => h e (.tail _ mem)⟩
  | some e :: rest, h =>
    List.forall_mem_cons.mpr ⟨⟨e.wellFormed_dump (h e (.head _)), trivial⟩,
      wellFormed_dumpElements rest fun e mem => h e (.tail _ mem)⟩
  termination_by structural x => x

theorem wellFormed_dumpProperties : (ps : List Property) → (∀ p ∈ ps, (Subtree.property p).FiniteNumbers) →
    ∀ x ∈ dumpProperties ps, x.WellFormed
  | [], _ => by simp [dumpProperties]
  | ⟨_, key, value⟩ :: rest, h => by
    rw [List.forall_mem_cons] at h
    have hk := key.wellFormed_dump (h.1.below (.head _))
    have hv := value.wellFormed_dump (h.1.below (.tail _ (.head _)))
    exact List.forall_mem_cons.mpr ⟨by simp +decide [hk, hv], wellFormed_dumpProperties rest h.2⟩
  termination_by structural x => x

theorem wellFormed_dumpOption : (e : Option Expr) → (∀ x ∈ e, (Subtree.expr x).FiniteNumbers) →
    (dumpOption e).WellFormed
  | none, _ => trivial
  | some e, h => ⟨e.wellFormed_dump (h e rfl), trivial⟩
  termination_by structural x => x

theorem Block.wellFormed_dump : (b : Block) → (Subtree.block b).FiniteNumbers → b.dump.WellFormed
  | ⟨_, body⟩, h => by
    have hs := wellFormed_dumpStmts body fun _ mem => h.below (List.mem_map_of_mem mem)
    simp +decide [Block.dump, wellFormed_list hs]
  termination_by structural x => x

theorem wellFormed_dumpDeclarators : (ds : List Declarator) → (∀ d ∈ ds, (Subtree.declarator d).FiniteNumbers) →
    ∀ x ∈ dumpDeclarators ds, x.WellFormed
  | [], _ => by simp [dumpDeclarators]
  | ⟨_, _, init⟩ :: rest, h => by
    rw [List.forall_mem_cons] at h
    have hi := wellFormed_dumpOption init fun _ mem =>
      h.1.below (.tail _ (List.mem_map_of_mem (Option.mem_toList.mpr mem)))
    exact List.forall_mem_cons.mpr ⟨by simp +decide [hi], wellFormed_dumpDeclarators rest h.2⟩
  termination_by structural x => x

theorem Declaration.wellFormed_dump : (d : Declaration) → (Subtree.declaration d).FiniteNumbers → d.dump.WellFormed
  | ⟨_, _, declarators⟩, h => by
    have hs := wellFormed_dumpDeclarators declarators fun _ mem => h.below (List.mem_map_of_mem mem)
    simp +decide [Declaration.dump, WellFormed, wellFormed_list hs]
  termination_by structural x => x

theorem wellFormed_dumpForInit : (i : Option ForInit) → (∀ x ∈ i, x.subtree.FiniteNumbers) →
    (dumpForInit i).WellFormed
  | none, _ => trivial
  | some (.declaration d), h => ⟨⟨rfl, d.wellFormed_dump (h _ rfl)⟩, trivial⟩
  | some (.expression e), h => ⟨⟨rfl, e.wellFormed_dump (h _ rfl)⟩, trivial⟩
  termination_by structural x => x

/-- The dump of a statement is well formed. -/
theorem Stmt.wellFormed_dump : (s : Stmt) → (Subtree.stmt s).FiniteNumbers → s.dump.WellFormed
  | .declaration decl, h => by
    have hd := decl.wellFormed_dump (h.below (.head _))
    simp +decide [Stmt.dump, hd]
  | .functionDecl ⟨_, _, params, body⟩, h => by
    have hp := wellFormed_dumpExprs params fun _ mem =>
      h.below (List.mem_append_left _ (.tail _ (List.mem_map_of_mem mem)))
    have hb := body.wellFormed_dump (h.below (List.mem_append_right _ (.head _)))
    simp +decide [Stmt.dump, wellFormed_list hp, hb]
  | .block b, h => by
    have hb := b.wellFormed_dump (h.below (.head _))
    simp +decide [Stmt.dump, hb]
  | .ret _ argument, h => by
    have ha := wellFormed_dumpOption argument fun _ mem =>
      h.below (List.mem_map_of_mem (Option.mem_toList.mpr mem))
    simp +decide [Stmt.dump, ha]
  | .forLoop ⟨_, init, test, update, body⟩, h => by
    have hi := wellFormed_dumpForInit init fun _ mem => h.below (mem_init mem)
    have ht := wellFormed_dumpOption test fun _ mem => h.below (mem_test mem)
    have hu := wellFormed_dumpOption update fun _ mem => h.below (mem_update mem)
    have hb := body.wellFormed_dump (h.below (List.mem_append_right _ (.head _)))
    simp +decide [Stmt.dump, hi, ht, hu, hb]
  | .whileLoop ⟨_, test, body⟩, h => by
    have ht := test.wellFormed_dump (h.below (.head _))
    have hb := body.wellFormed_dump (h.below (.tail _ (.head _)))
    simp +decide [Stmt.dump, ht, hb]
  | .ifElse ⟨_, test, consequent, alternate⟩, h => by
    have ht := test.wellFormed_dump (h.below (.head _))
    have hc := consequent.wellFormed_dump (h.below (.tail _ (.head _)))
    have ha := wellFormed_dumpStmtOption alternate fun _ mem => h.below (mem_alternate mem)
    simp +decide [Stmt.dump, ht, hc, ha]
  | .brk _, _ | .cont _, _ | .empty _, _ | .unknown _, _ => by simp +decide [Stmt.dump]
  | .throw _ argument, h | .expression _ argument, h => by
    have ha := argument.wellFormed_dump (h.below (.head _))
    simp +decide [Stmt.dump, ha]
  termination_by structural x => x

theorem wellFormed_dumpStmtOption : (s : Option Stmt) → (∀ x ∈ s, (Subtree.stmt x).FiniteNumbers) →
    (dumpStmtOption s).WellFormed
  | none, _ => trivial
  | some s, h => ⟨s.wellFormed_dump (h s rfl), trivial⟩
  termination_by structural x => x

theorem wellFormed_dumpStmts : (ss : List Stmt) → (∀ s ∈ ss, (Subtree.stmt s).FiniteNumbers) →
    ∀ x ∈ dumpStmts ss, x.WellFormed
  | [], _ => by simp [dumpStmts]
  | s :: rest, h => by
    rw [List.forall_mem_cons] at h
    exact List.forall_mem_cons.mpr ⟨s.wellFormed_dump h.1, wellFormed_dumpStmts rest h.2⟩
  termination_by structural x => x

end

namespace Program

/-- The dump of a program determines it. -/
theorem dump_inj {p q : Program} (hp : (Subtree.program p).FiniteNumbers) (hq : (Subtree.program q).FiniteNumbers)
    (h : p.dump = q.dump) : p = q := by
  obtain ⟨_, body⟩ := p
  obtain ⟨_, body'⟩ := q
  simp [Program.dump] at h
  obtain ⟨rfl, eqs⟩ := h
  rw [dumpStmts_inj body body' (fun _ mem => hp.below (List.mem_map_of_mem mem))
    (fun _ mem => hq.below (List.mem_map_of_mem mem)) eqs]

/-- The dump of a program is well formed. -/
theorem wellFormed_dump {p : Program} (h : (Subtree.program p).FiniteNumbers) : p.dump.WellFormed := by
  have hs := wellFormed_dumpStmts p.body fun _ mem => h.below (List.mem_map_of_mem mem)
  simp +decide [Program.dump, wellFormed_list hs]

end Program

namespace CommandLine

/-- A run that prints trees prints different texts for different programs whose numbers are finite. -/
theorem printedText_dump_inj {o : Options} (dumps : o.dumpTree = true) (a b : Output)
    (ha : ∀ span x, .expr (.literal ⟨span, .number x⟩) ∈ a.program.events → x.isFinite = true)
    (hb : ∀ span x, .expr (.literal ⟨span, .number x⟩) ∈ b.program.events → x.isFinite = true) :
    printedText o a = printedText o b ↔ a.program = b.program := by
  have hp : (Subtree.program a.program).FiniteNumbers := fun lit met x e => ha lit.span x (e ▸ met)
  have hq : (Subtree.program b.program).FiniteNumbers := fun lit met x e => hb lit.span x (e ▸ met)
  simp only [printedText, dumps, if_true, String.append_left_inj]
  constructor
  · intro h
    exact Program.dump_inj hp hq (text_injective (Program.wellFormed_dump hp) (Program.wellFormed_dump hq) h)
  · intro h
    rw [h]

/-- The output of a zero in an array, in front of a hole if there is one. -/
def exampleOutput (negative hole : Bool) : Output :=
  let span : Span := ⟨"a.js", ⟨0, 0⟩, ⟨0, 9⟩, 0, 9⟩
  let zero : Expr := .literal ⟨span, .number (.zero negative)⟩
  let p : Program := ⟨span, [.expression span (.array span (some zero :: if hole then [none] else []))]⟩
  ⟨some "a.js", p, p.render⟩

theorem printedText_dump_inj_exampleOutput :
    let o : Options := { dumpTree := true, files := ["a.js"] }
    printedText o (exampleOutput false true) ≠ printedText o (exampleOutput true true) ∧
      printedText o (exampleOutput false true) ≠ printedText o (exampleOutput false false) := by
  intro o
  have finite (negative hole : Bool) (span : Span) (x : Binary64)
      (met : .expr (.literal ⟨span, .number x⟩) ∈ (exampleOutput negative hole).program.events) :
      x.isFinite = true := by
    have e : x = .zero negative := by
      cases hole <;> simp [exampleOutput, Program.events, eventsOfStmts, Stmt.events, Expr.events,
        eventsOfElements] at met <;> exact met.2
    rw [e]
    cases negative <;> decide
  constructor <;> intro h
  · have := (printedText_dump_inj (o := o) rfl _ _ (finite _ _) (finite _ _)).mp h
    simp [exampleOutput, Binary64.zero, Binary64.ofParts] at this
  · have := (printedText_dump_inj (o := o) rfl _ _ (finite _ _) (finite _ _)).mp h
    simp [exampleOutput] at this

end CommandLine

end IndexedLoop
