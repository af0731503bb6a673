import IndexedLoop.Proofs.Bytes
import IndexedLoop.Proofs.Extents.Program
import IndexedLoop.Proofs.Extents.Shapes
import IndexedLoop.Proofs.Extents.Subtree
import IndexedLoop.Proofs.StringTokens
import IndexedLoop.Source

/-!
# Lowering a surface tree of a source

What lies in a source is lowered to a tree that stands in it, node by node at the same places, and every piece of it
has the shape of what is read (`Subtree.Formed`). If the lowering fails, then either a construct has no form, which the
nearest statement catches, or the text of a literal below has no value. `Lower.Ends` speaks of both ways in which a
lowering can end.
-/

namespace IndexedLoop

/-! ## Trees at the places of a surface tree -/

/-- The piece has the shape of what is read, and comes from a node of a surface tree if it is a sequence or an array. -/
structure Subtree.Shaped (holds : Surface.Node → Prop) (src : List Symbol) (file : String) (t : Subtree) : Prop where
  formed : t.Formed (Quoted.IsContent src)
  listed : t.Listed holds file

/-- The subtree stands in a source between two offsets, and has the shape of what is read. -/
structure Subtree.Placed (holds : Surface.Node → Prop) (src : List Symbol) (file : String) (lo hi : Nat)
    (t : Subtree) : Prop where
  stands : t.Stands src file lo hi
  upper : t.span.byteEnd ≤ hi
  shaped : ∀ u, t.Within u → u.Shaped holds src file

section Placed

variable {holds : Surface.Node → Prop} {src : List Symbol} {file : String} {lo hi : Nat} {t child : Subtree}

instance : Widens (Subtree.Placed holds src file) where
  le h := Widens.le h.stands
  mono h lower wider := ⟨Widens.mono h.stands lower wider, h.upper.trans wider, h.shaped⟩

theorem Subtree.Placed.imp {holds' : Surface.Node → Prop} (h : t.Placed holds src file lo hi)
    (imp : ∀ node, holds node → holds' node) : t.Placed holds' src file lo hi :=
  ⟨h.stands, h.upper, fun u within => ⟨(h.shaped u within).formed, (h.shaped u within).listed.imp imp⟩⟩

/-- A subtree with a single child and its span is where its child is. -/
theorem Subtree.Placed.wrap (h : child.Placed holds src file lo hi) (span : t.span = child.span)
    (children : t.children = [child]) (faithful : ∀ e, t.Faithful src e)
    (formed : t.Formed (Quoted.IsContent src) := by trivial) (listed : t.Listed holds file := by trivial) :
    t.Placed holds src file lo hi := by
  obtain ⟨⟨child_span, extent, first, child_faithful, inside, below, upper⟩, upper', child_shaped⟩ := h
  refine ⟨⟨span.trans child_span, extent, first, faithful _, ?_, ?_, le_rfl⟩, span ▸ upper',
    forall_within ⟨formed, listed⟩ ?_⟩
  · rw [children]
    intro c mem
    rw [List.mem_singleton.mp mem, child_span]
    rfl
  · rw [children]
    exact lined_singleton.mpr
      ⟨child_span, { extent with lower := le_rfl }, first, child_faithful, inside, below, upper⟩
  · rw [children]
    exact List.forall_mem_singleton.mpr child_shaped

end Placed

namespace Surface

open Lower

/-- The node is a node of a surface tree or lies below it. -/
def Node.Within (tree : Node) : Node → Prop :=
  Relation.ReflTransGen (fun node part => part ∈ node.parts) tree

/-- A node of a surface tree lies in a source between two offsets. -/
structure Node.Sits (tree : Node) (src : List Symbol) (lo hi : Nat) (node : Node) : Prop where
  lies : node.Lies src lo hi
  within : tree.Within node

/-- The text of a literal has no value. -/
inductive Literal.Fails (file : String) (l : Literal) : Located ReadError → Prop
  | invalidUtf8 {fault : Utf8.Fault} (text : Symbol.toText l.text = .error fault) :
      Literal.Fails file l (.here (.invalidUtf8 fault) (l.extent.toSpan file))
  | badNumber {text : String} (text_eq : Symbol.toText l.text = .ok text) (number : l.literalClass = .number)
      (none : numberConstant? text = none) : Literal.Fails file l (.here (.badNumber text) (l.extent.toSpan file))

/-- Why the lowering of a part of a surface tree may fail: a construct has no form, or a literal no value. -/
def Node.Fails (tree : Node) (file : String) (e : Located ReadError) : Prop :=
  e.cause.isUnsupported = true ∨ ∃ l, tree.Within (.literal l) ∧ l.Fails file e

variable {tree : Node} {src : List Symbol} {file : String} {lo hi : Nat} {node : Node}

instance : Widens (tree.Sits src) where
  le h := h.lies.extent.le
  mono h lower wider := ⟨h.lies.mono lower wider, h.within⟩

namespace Node.Sits

theorem parts (h : tree.Sits src lo hi node) :
    Lined (tree.Sits src) node.extent.start.offset node.extent.stop.offset node.parts :=
  h.lies.parts.imp fun mem lies => ⟨lies, h.within.tail mem⟩

theorem faithful (h : tree.Sits src lo hi node) : node.Faithful src := (Node.lies_iff.mp h.lies).2.1

/-- A node with a single part lies where the part does. -/
theorem part {inner : Node} (h : tree.Sits src lo hi node) (parts : node.parts = [inner]) :
    tree.Sits src lo hi inner := by
  have sits := lined_singleton.mp (parts ▸ h.parts)
  exact Widens.mono sits h.lies.extent.lower h.lies.extent.upper

/-- A tree that has the extent of the node, and children inside of it, is at the place of the node. -/
theorem placed {t : Subtree} (h : tree.Sits src lo hi node) (span : t.span = node.extent.toSpan file)
    (faithful : t.Faithful src node.extent)
    (children : Lined (Subtree.Placed tree.Within src file) node.extent.start.offset node.extent.stop.offset t.children)
    (formed : t.Formed (Quoted.IsContent src) := by trivial) (listed : t.Listed tree.Within file := by trivial) :
    t.Placed tree.Within src file lo hi := by
  have extent := h.lies.extent
  refine ⟨⟨span, { extent with upper := le_rfl }, ?_, faithful, ?_, children.imp fun _ child => child.stands,
    extent.upper⟩, ?_, Subtree.forall_within ⟨formed, listed⟩ fun child mem => (children.of_mem mem).shaped⟩
  · exact extent.ordered.trans extent.upper
  · exact fun child mem => (children.of_mem mem).upper
  · rw [span]
    exact extent.upper

/-- A leaf of the tree at the place of the node. -/
theorem leaf {t : Subtree} (h : tree.Sits src lo hi node) (span : t.span = node.extent.toSpan file)
    (faithful : t.Faithful src node.extent) (children : t.children = [])
    (formed : t.Formed (Quoted.IsContent src) := by trivial) (listed : t.Listed tree.Within file := by trivial) :
    t.Placed tree.Within src file lo hi :=
  h.placed span faithful (children ▸ .nil h.lies.extent.ordered) formed listed

end Node.Sits

/-! ## Leaves -/

section Name

variable {n : Name} (h : tree.Sits src lo hi (.name n))
include h

/-- All of a name starts where the name starts. -/
theorem Name.stands : (Subtree.identifier (n.lower file)).Stands src file n.extent.start.offset n.extent.start.offset :=
  have extent := h.lies.extent
  ⟨rfl, { extent with lower := le_rfl, upper := le_rfl }, le_rfl, (Node.lies_iff.mp h.lies).2.1, nofun, .nil le_rfl,
    le_rfl⟩

theorem Name.stands_expr :
    (Subtree.expr (.identifier (n.lower file))).Stands src file n.extent.start.offset n.extent.start.offset := by
  have extent := h.lies.extent
  refine ⟨rfl, { extent with lower := le_rfl, upper := le_rfl }, le_rfl, trivial, ?_,
    lined_singleton.mpr (Name.stands h), le_rfl⟩
  intro child mem
  rw [List.mem_singleton.mp mem]
  rfl

theorem Name.placed : (Subtree.identifier (n.lower file)).Placed tree.Within src file lo hi :=
  h.leaf rfl (Node.lies_iff.mp h.lies).2.1 rfl

theorem Name.placed_expr : (Subtree.expr (.identifier (n.lower file))).Placed tree.Within src file lo hi :=
  (Name.placed h).wrap rfl rfl fun _ => trivial

/-- A shorthand property has its name as its key and again as its value. -/
theorem Name.placed_property :
    (Subtree.property ⟨n.extent.toSpan file, .identifier (n.lower file), .identifier (n.lower file)⟩).Placed
      tree.Within src file lo hi := by
  have extent := h.lies.extent
  -- key and value have the same extent, so that not even the end of the first lies in front of the second
  refine ⟨⟨rfl, { extent with upper := le_rfl }, extent.ordered.trans extent.upper, trivial, ?_,
    .cons (Name.stands_expr h) (.cons (Name.stands_expr h) (.nil le_rfl)),
    extent.ordered.trans extent.upper⟩, extent.upper, Subtree.forall_within ⟨rfl, trivial⟩ ?_⟩
  all_goals
    intro child mem
    simp only [Subtree.children, List.mem_cons, List.not_mem_nil, or_false, or_self] at mem
    rw [mem]
  · rfl
  · exact (Name.placed_expr h).shaped

end Name

/-- A number literal denotes what its text says. -/
theorem denoted_numberConstant {text : String} {value : Constant} (h : numberConstant? text = some value) :
    value.Denoted text := by
  rw [numberConstant?] at h
  split at h
  · next big =>
    cases h
    exact ⟨rfl, rfl, big⟩
  · next small =>
    obtain ⟨number, read, rfl⟩ := Option.map_eq_some_iff.mp h
    exact ⟨read, Bool.eq_false_iff.mpr small⟩

/-- A number literal has a value without a sign, or is a big integer. -/
theorem formed_numberConstant {body : String → Prop} {symbols : List Symbol} (isNumber : Lexical.IsNumber symbols)
    {text : String} (text_eq : Symbol.toText symbols = .ok text) {value : Constant}
    (h : numberConstant? text = some value) : value.Formed body := by
  obtain ⟨text', rfl, -⟩ := isNumber.value_or_tooLarge
  rw [Symbol.toText_ofString] at text_eq
  cases text_eq
  rw [numberConstant?] at h
  split at h
  · cases h
    rfl
  · next small =>
    obtain ⟨number, read, rfl⟩ := Option.map_eq_some_iff.mp h
    exact isNumber.isUnsigned (Bool.eq_false_iff.mpr small) read

theorem Literal.lower_ends {l : Literal} (h : tree.Sits src lo hi (.literal l)) :
    (l.lower file).Ends (fun lit => (Subtree.expr (.literal lit)).Placed tree.Within src file lo hi)
      (tree.Fails file) := by
  obtain ⟨spells, written⟩ : l.extent.Spells src l.text ∧ l.literalClass.Written l.text := (Node.lies_iff.mp h.lies).2.1
  rw [Literal.lower]
  split
  · next text => exact ends_failAt (.inr ⟨l, h.within, .invalidUtf8 text⟩)
  · next text text_eq =>
    have denotes {value : Constant} (denoted : value.Denoted text) (formed : value.Formed (Quoted.IsContent src)) :
        (Subtree.expr (.literal ⟨l.extent.toSpan file, value⟩)).Placed tree.Within src file lo hi :=
      h.leaf rfl ⟨l.text, text, spells, text_eq, denoted⟩ rfl formed
    have spelled {w : String} (e : l.text = Symbol.ofString w) : text = w := by
      rw [e, Symbol.toText_ofString] at text_eq
      cases text_eq
      rfl
    split
    · next value isBoolean =>
      rw [isBoolean] at written
      cases value <;> exact ends_pure (denotes (spelled written) trivial)
    · next isNull =>
      rw [isNull] at written
      exact ends_pure (denotes (spelled written) trivial)
    · exact ends_pure (denotes rfl trivial)
    · next isString =>
      rw [isString] at written
      exact ends_pure (denotes rfl ⟨l.text, text, spells.isInfix, written, text_eq, rfl⟩)
    · next isNumber =>
      rw [isNumber] at written
      split
      · next read =>
        exact ends_pure (denotes (denoted_numberConstant read) (formed_numberConstant written text_eq read))
      · next none => exact ends_failAt (.inr ⟨l, h.within, .badNumber text_eq isNumber none⟩)

theorem ends_unsupported {α : Type} {ok : α → Prop} (p : Piece) :
    (unsupported file p : Lower α).Ends ok (tree.Fails file) :=
  ends_failAt (.inl rfl)

theorem Binding.lower_ends {b : Binding} (h : tree.Sits src lo hi b.node) :
    (b.lower file).Ends (fun e => (Subtree.expr e).Placed tree.Within src file lo hi) (tree.Fails file) := by
  cases b with
  | name n => exact ends_pure (Name.placed_expr h)
  | pattern p => exact (ends_warn _).bind fun _ _ => ends_pure (h.leaf rfl trivial rfl)

theorem Binding.lowerAll_ends {bs : List Binding} (h : Lined (tree.Sits src) lo hi (bs.map Binding.node)) :
    (bs.mapM (Binding.lower file)).Ends (fun es => Lined (Subtree.Placed tree.Within src file) lo hi (es.map .expr))
      (tree.Fails file) := by
  induction bs generalizing lo with
  | nil => exact ends_pure (.nil h.le)
  | cons b bs ih =>
    obtain ⟨mid, first, rest⟩ := lined_cons.mp h
    rw [List.mapM_cons]
    exact (Binding.lower_ends first).bind fun _ first => (ih rest).bind fun _ rest => ends_pure (.cons first rest)

theorem Key.lower_ends {k : Key} (h : tree.Sits src lo hi k.node) :
    (k.lower file).Ends (fun e => (Subtree.expr e).Placed tree.Within src file lo hi) (tree.Fails file) := by
  cases k with
  | name n => exact ends_pure (Name.placed_expr h)
  | literal l => exact (Literal.lower_ends h).bind fun _ lit => ends_pure lit
  | other p => exact ends_unsupported p

/-! ## Unknown nodes -/

/-- An expression without a form is an unknown expression at its place. -/
theorem ends_orUnknownExpr {m : Lower IndexedLoop.Expr} {e : Expr} {p : Piece} (h : tree.Sits src lo hi (.expr e))
    (extent : e.extent = p.extent)
    (hm : m.Ends (fun t => (Subtree.expr t).Placed tree.Within src file lo hi) (tree.Fails file)) :
    (orUnknownExpr file p m).Ends (fun t => (Subtree.expr t).Placed tree.Within src file lo hi) (tree.Fails file) := by
  have unknown : (Subtree.expr (.unknown ⟨p.extent.toSpan file, p.construct.name⟩)).Placed tree.Within src file lo hi :=
    extent ▸ h.leaf rfl trivial rfl
  exact (hm.orUnknown unknown).mono (fun _ => id) fun _ => And.left

/-- A statement without a form is an unknown statement at its place, so that only literals can fail. -/
theorem ends_orUnknownStmt {m : Lower IndexedLoop.Stmt} {s : Stmt} (h : tree.Sits src lo hi (.stmt s))
    (hm : m.Ends (fun t => (Subtree.stmt t).Placed tree.Within src file lo hi) (tree.Fails file)) :
    (orUnknownStmt file s.piece m).Ends (fun t => (Subtree.stmt t).Placed tree.Within src file lo hi)
      fun e => ∃ l, tree.Within (.literal l) ∧ l.Fails file e := by
  have unknown :
      (Subtree.stmt (.unknown ⟨s.piece.extent.toSpan file, s.piece.construct.name⟩)).Placed tree.Within src file lo hi :=
    h.leaf rfl trivial rfl
  refine (hm.orUnknown unknown).mono (fun _ => id) fun e fails => ?_
  exact fails.1.resolve_left (by rw [fails.2]; exact Bool.false_ne_true)

/-- A statement inside of another construct. -/
theorem ends_inner {m : Lower IndexedLoop.Stmt} {s : Stmt} (h : tree.Sits src lo hi (.stmt s))
    (hm : m.Ends (fun t => (Subtree.stmt t).Placed tree.Within src file lo hi) (tree.Fails file)) :
    (orUnknownStmt file s.piece m).Ends (fun t => (Subtree.stmt t).Placed tree.Within src file lo hi)
      (tree.Fails file) :=
  (ends_orUnknownStmt h hm).mono (fun _ => id) fun _ => .inr

/-! ## Trees -/

mutual

theorem Expr.lower_ends : (e : Expr) → ∀ {lo hi : Nat}, tree.Sits src lo hi (.expr e) →
    (e.lower file).Ends (fun t => (Subtree.expr t).Placed tree.Within src file lo hi) (tree.Fails file)
  | .name n, _, _, h => by
    rw [Expr.lower]
    exact ends_pure (Name.placed_expr (h.part rfl))
  | .this e, _, _, h => by
    rw [Expr.lower]
    exact ends_pure (h.leaf rfl trivial rfl)
  | .literal l, _, _, h => by
    rw [Expr.lower]
    exact (Literal.lower_ends (h.part rfl)).bind fun _ lit => ends_pure lit
  | .assignment e op target value, _, _, h => by
    obtain ⟨_, first, rest⟩ := lined_cons.mp h.parts
    rw [Expr.lower]
    refine (target.lower_ends first).bind fun _ first => ?_
    refine (value.lower_ends (lined_singleton.mp rest)).bind fun _ second => ends_pure ?_
    exact h.placed rfl trivial (.cons first (lined_singleton.mpr second))
  | .binary e op left right, _, _, h => by
    obtain ⟨_, first, rest⟩ := lined_cons.mp h.parts
    rw [Expr.lower]
    refine (left.lower_ends first).bind fun _ first => ?_
    refine (right.lower_ends (lined_singleton.mp rest)).bind fun _ second => ends_pure ?_
    exact h.placed rfl trivial (.cons first (lined_singleton.mpr second))
  | .unary e op argument, _, _, h => by
    rw [Expr.lower]
    refine (argument.lower_ends (lined_singleton.mp h.parts)).bind fun _ inner => ends_pure ?_
    exact h.placed rfl trivial (lined_singleton.mpr inner)
  | .update e op leading argument, _, _, h => by
    rw [Expr.lower]
    refine (argument.lower_ends (lined_singleton.mp h.parts)).bind fun _ inner => ends_pure ?_
    exact h.placed rfl trivial (lined_singleton.mpr inner)
  | .sequence e items, _, _, h => by
    have pair : 2 ≤ items.length := h.faithful.1
    rw [Expr.lower]
    refine ((Expr.lowerAll_ends items h.parts).and (Expr.lowerAll_isSequence items)).bind fun ts ⟨placed, same⟩ => ?_
    have length : items.length = ts.length := by simpa using (congrArg List.length same).symm
    exact ends_pure (h.placed rfl trivial placed (pair.trans length.le) ⟨e, items, h.within, rfl, same⟩)
  | .conditional e test consequent alternate, _, _, h => by
    obtain ⟨_, first, rest⟩ := lined_cons.mp h.parts
    obtain ⟨_, second, rest⟩ := lined_cons.mp rest
    rw [Expr.lower]
    refine (test.lower_ends first).bind fun _ first => ?_
    refine (consequent.lower_ends second).bind fun _ second => ?_
    refine (alternate.lower_ends (lined_singleton.mp rest)).bind fun _ third => ends_pure ?_
    exact h.placed rfl trivial (.cons first (.cons second (lined_singleton.mpr third)))
  | .function e name fn, _, _, h => by
    obtain ⟨_, named, parts⟩ := lined_append.mp h.parts
    rw [Expr.lower]
    refine ((fn.lower_ends parts).and fn.lower_isNameOrUnknown).bind fun ⟨params, body⟩ ⟨parts, plain⟩ => ?_
    refine ends_pure (h.placed rfl trivial ?_ plain)
    change Lined _ _ _ ((name.map (Name.lower file)).toList.map Subtree.identifier ++ params.map .expr ++ [.block body])
    rw [List.append_assoc]
    refine Lined.append ?_ parts
    cases name with
    | none => exact .nil named.le
    | some n => exact lined_singleton.mpr (Name.placed (lined_singleton.mp named))
  | .call e callee args, _, _, h => by
    obtain ⟨_, first, rest⟩ := lined_cons.mp h.parts
    rw [Expr.lower]
    refine (callee.lower_ends first).bind fun _ first => ?_
    exact (Expr.lowerAll_ends args rest).bind fun _ rest => ends_pure (h.placed rfl trivial (.cons first rest))
  | .new e callee args, _, _, h => by
    obtain ⟨_, first, rest⟩ := lined_cons.mp h.parts
    rw [Expr.lower]
    refine (callee.lower_ends first).bind fun _ first => ?_
    exact (Expr.lowerAll_ends args rest).bind fun _ rest => ends_pure (h.placed rfl trivial (.cons first rest))
  | .dot e object property, _, _, h => by
    obtain ⟨_, first, rest⟩ := lined_cons.mp h.parts
    rw [Expr.lower]
    refine (object.lower_ends first).bind fun _ first => ends_pure ?_
    have last := lined_singleton.mp rest
    exact h.placed rfl trivial (.cons first (lined_singleton.mpr (Name.placed_expr last))) (.inr ⟨rfl, rfl⟩)
  | .subscript e object index, _, _, h => by
    obtain ⟨_, first, rest⟩ := lined_cons.mp h.parts
    rw [Expr.lower]
    refine (object.lower_ends first).bind fun _ first => ?_
    refine (index.lower_ends (lined_singleton.mp rest)).bind fun _ second => ends_pure ?_
    exact h.placed rfl trivial (.cons first (lined_singleton.mpr second)) (.inl rfl)
  | .object e members, _, _, h => by
    rw [Expr.lower]
    refine ends_orUnknownExpr h rfl ?_
    exact (Member.lowerAll_ends members h.parts).bind fun _ members => ends_pure (h.placed rfl trivial members)
  | .array e elements, _, _, h => by
    rw [Expr.lower]
    refine ((Expr.lowerElements_ends elements h.parts).and (Expr.lowerElements_becomes fun _ _ => ends_trivial)).bind ?_
    exact fun _ ⟨items, same⟩ => ends_pure (h.placed rfl trivial items trivial ⟨e, elements, h.within, rfl, same⟩)
  | .spread e inner, _, _, h => by
    rw [Expr.lower]
    exact ends_orUnknownExpr h rfl (ends_unsupported _)
  | .parens e inner, _, _, h => by
    rw [Expr.lower]
    exact inner.lower_ends (h.part rfl)
  | .other u, _, _, h => by
    rw [Expr.lower]
    exact ends_orUnknownExpr h rfl (ends_unsupported _)

theorem Expr.lowerAll_ends : (es : List Expr) → ∀ {lo hi : Nat}, Lined (tree.Sits src) lo hi (es.map .expr) →
    (Expr.lowerAll file es).Ends (fun ts => Lined (Subtree.Placed tree.Within src file) lo hi (ts.map .expr))
      (tree.Fails file)
  | [], _, _, h => by
    rw [Expr.lowerAll]
    exact ends_pure (.nil h.le)
  | e :: es, _, _, h => by
    obtain ⟨_, first, rest⟩ := lined_cons.mp h
    rw [Expr.lowerAll]
    refine (e.lower_ends first).bind fun _ first => ?_
    exact (Expr.lowerAll_ends es rest).bind fun _ rest => ends_pure (.cons first rest)

theorem Expr.lowerElements_ends : (es : List (Option Expr)) → ∀ {lo hi : Nat},
    Lined (tree.Sits src) lo hi (es.reduceOption.map .expr) →
    (Expr.lowerElements file es).Ends
      (fun ts => Lined (Subtree.Placed tree.Within src file) lo hi (ts.reduceOption.map .expr))
      (tree.Fails file)
  | [], _, _, h => by
    rw [Expr.lowerElements]
    exact ends_pure (.nil h.le)
  | none :: es, _, _, h => by
    rw [Expr.lowerElements]
    exact (Expr.lowerElements_ends es h).bind fun _ rest => ends_pure rest
  | some e :: es, _, _, h => by
    obtain ⟨_, first, rest⟩ := lined_cons.mp h
    rw [Expr.lowerElements]
    refine (e.lower_ends first).bind fun _ first => ?_
    exact (Expr.lowerElements_ends es rest).bind fun _ rest => ends_pure (.cons first rest)

theorem Member.lower_ends : (m : Member) → ∀ {lo hi : Nat}, tree.Sits src lo hi (.member m) →
    (m.lower file).Ends (fun p => (Subtree.property p).Placed tree.Within src file lo hi) (tree.Fails file)
  | .pair e key value, _, _, h => by
    obtain ⟨_, first, rest⟩ := lined_cons.mp h.parts
    rw [Member.lower]
    refine ((Key.lower_ends first).and key.lower_isNameOrLiteral).bind fun _ ⟨first, plain⟩ => ?_
    refine (value.lower_ends (lined_singleton.mp rest)).bind fun _ second => ends_pure ?_
    exact h.placed rfl trivial (.cons first (lined_singleton.mpr second)) plain
  | .shorthand n, _, _, h => by
    rw [Member.lower]
    exact ends_pure (Name.placed_property (h.part rfl))
  | .defaulted e, _, _, h => by
    rw [Member.lower]
    exact ends_unsupported _
  | .spread e inner, _, _, h => by
    rw [Member.lower]
    exact ends_unsupported _
  | .method e, _, _, h => by
    rw [Member.lower]
    exact ends_unsupported _

theorem Member.lowerAll_ends : (ms : List Member) → ∀ {lo hi : Nat}, Lined (tree.Sits src) lo hi (ms.map .member) →
    (Member.lowerAll file ms).Ends (fun ps => Lined (Subtree.Placed tree.Within src file) lo hi (ps.map .property))
      (tree.Fails file)
  | [], _, _, h => by
    rw [Member.lowerAll]
    exact ends_pure (.nil h.le)
  | m :: ms, _, _, h => by
    obtain ⟨_, first, rest⟩ := lined_cons.mp h
    rw [Member.lowerAll]
    refine (m.lower_ends first).bind fun _ first => ?_
    exact (Member.lowerAll_ends ms rest).bind fun _ rest => ends_pure (.cons first rest)

theorem Function.lower_ends : (fn : Function) → ∀ {lo hi : Nat}, Lined (tree.Sits src) lo hi fn.parts →
    (fn.lower file).Ends (fun r => Lined (Subtree.Placed tree.Within src file) lo hi (r.1.map .expr ++ [.block r.2]))
      (tree.Fails file)
  | .mk params body, _, _, h => by
    obtain ⟨_, first, rest⟩ := lined_append.mp h
    rw [Function.lower]
    refine (Binding.lowerAll_ends first).bind fun _ first => ?_
    refine (body.lower_ends (lined_singleton.mp rest)).bind fun _ body => ends_pure ?_
    exact first.append (lined_singleton.mpr body)

theorem Block.lower_ends : (b : Block) → ∀ {lo hi : Nat}, tree.Sits src lo hi (.block b) →
    (b.lower file).Ends (fun t => (Subtree.block t).Placed tree.Within src file lo hi) (tree.Fails file)
  | .mk e body, _, _, h => by
    rw [Block.lower]
    exact (Stmt.lowerAll_ends body h.parts).bind fun _ body => ends_pure (h.placed rfl trivial body)

theorem Declarator.lower_ends : (d : Declarator) → ∀ {lo hi : Nat}, tree.Sits src lo hi (.declarator d) →
    (d.lower file).Ends (fun t => (Subtree.declarator t).Placed tree.Within src file lo hi) (tree.Fails file)
  | .mk e (.name n) none, _, _, h => by
    rw [Declarator.lower]
    exact ends_pure (h.placed rfl trivial (lined_singleton.mpr (Name.placed (lined_singleton.mp h.parts))))
  | .mk e (.name n) (some init), _, _, h => by
    obtain ⟨_, first, rest⟩ := lined_cons.mp h.parts
    rw [Declarator.lower]
    refine (init.lower_ends (lined_singleton.mp rest)).bind fun _ second => ends_pure ?_
    exact h.placed rfl trivial (.cons (Name.placed first) (lined_singleton.mpr second))
  | .mk e (.pattern p) init, _, _, h => by
    rw [Declarator.lower]
    exact ends_unsupported _

theorem Declarator.lowerAll_ends : (ds : List Declarator) → ∀ {lo hi : Nat},
    Lined (tree.Sits src) lo hi (ds.map .declarator) →
    (Declarator.lowerAll file ds).Ends
      (fun ts => Lined (Subtree.Placed tree.Within src file) lo hi (ts.map .declarator))
      (tree.Fails file)
  | [], _, _, h => by
    rw [Declarator.lowerAll]
    exact ends_pure (.nil h.le)
  | d :: ds, _, _, h => by
    obtain ⟨_, first, rest⟩ := lined_cons.mp h
    rw [Declarator.lowerAll]
    refine (d.lower_ends first).bind fun _ first => ?_
    exact (Declarator.lowerAll_ends ds rest).bind fun _ rest => ends_pure (.cons first rest)

theorem Declaration.lower_ends : (d : Declaration) → ∀ {lo hi : Nat}, tree.Sits src lo hi (.declaration d) →
    (d.lower file).Ends (fun t => (Subtree.declaration t).Placed tree.Within src file lo hi) (tree.Fails file)
  | .mk e kind ds, _, _, h => by
    rw [Declaration.lower]
    refine ((Declarator.lowerAll_ends ds h.parts).and (Declarator.length_lowerAll ds)).bind fun _ ⟨ts, length⟩ => ?_
    refine ends_pure (h.placed rfl trivial ts ?_)
    have some : ds ≠ [] := h.faithful
    rwa [← List.length_pos_iff, ← length, List.length_pos_iff] at some

theorem ForInit.lower_ends : (init : Option ForInit) → ∀ {lo hi : Nat},
    Lined (tree.Sits src) lo hi (init.toList.map ForInit.node) →
    (ForInit.lower file init).Ends
      (fun t => Lined (Subtree.Placed tree.Within src file) lo hi (t.toList.map IndexedLoop.ForInit.subtree))
      (tree.Fails file)
  | none, _, _, h => by
    rw [ForInit.lower]
    exact ends_pure (.nil h.le)
  | some (.declaration d), _, _, h => by
    rw [ForInit.lower]
    exact (d.lower_ends (lined_singleton.mp h)).bind fun _ d => ends_pure (lined_singleton.mpr d)
  | some (.expression e), _, _, h => by
    rw [ForInit.lower]
    exact (e.lower_ends (lined_singleton.mp h)).bind fun _ e => ends_pure (lined_singleton.mpr e)

theorem Expr.lowerOption_ends : (e : Option Expr) → ∀ {lo hi : Nat},
    Lined (tree.Sits src) lo hi (e.toList.map .expr) →
    (Expr.lowerOption file e).Ends (fun t => Lined (Subtree.Placed tree.Within src file) lo hi (t.toList.map .expr))
      (tree.Fails file)
  | none, _, _, h => by
    rw [Expr.lowerOption]
    exact ends_pure (.nil h.le)
  | some e, _, _, h => by
    rw [Expr.lowerOption]
    exact (e.lower_ends (lined_singleton.mp h)).bind fun _ e => ends_pure (lined_singleton.mpr e)

theorem Stmt.lowerForm_ends : (s : Stmt) → ∀ {lo hi : Nat}, tree.Sits src lo hi (.stmt s) →
    (s.lowerForm file).Ends (fun t => (Subtree.stmt t).Placed tree.Within src file lo hi) (tree.Fails file)
  | .expression e closed expr, _, _, h => by
    rw [Stmt.lowerForm]
    refine (expr.lower_ends (lined_singleton.mp h.parts)).bind fun _ inner => ends_pure ?_
    exact h.placed rfl trivial (lined_singleton.mpr inner)
  | .declaration d, _, _, h => by
    rw [Stmt.lowerForm]
    exact (d.lower_ends (h.part rfl)).bind fun _ d => ends_pure (d.wrap rfl rfl fun _ => trivial)
  | .function e flavour name fn, _, _, h => by
    obtain ⟨_, first, rest⟩ := lined_cons.mp h.parts
    rw [Stmt.lowerForm]
    split
    · exact ends_unsupported _
    · refine ((fn.lower_ends rest).and fn.lower_isNameOrUnknown).bind fun ⟨params, body⟩ ⟨rest, plain⟩ => ends_pure ?_
      exact h.placed rfl trivial (.cons (Name.placed first) rest) plain
  | .block b, _, _, h => by
    rw [Stmt.lowerForm]
    exact (b.lower_ends (h.part rfl)).bind fun _ b => ends_pure (b.wrap rfl rfl fun _ => trivial)
  | .ret e argument, _, _, h => by
    rw [Stmt.lowerForm]
    exact (Expr.lowerOption_ends argument h.parts).bind fun _ e => ends_pure (h.placed rfl trivial e)
  | .throw e argument, _, _, h => by
    rw [Stmt.lowerForm]
    refine (argument.lower_ends (lined_singleton.mp h.parts)).bind fun _ inner => ends_pure ?_
    exact h.placed rfl trivial (lined_singleton.mpr inner)
  | .empty e, _, _, h => by
    rw [Stmt.lowerForm]
    exact ends_pure (h.leaf rfl trivial rfl)
  | .brk e, _, _, h => by
    rw [Stmt.lowerForm]
    exact ends_pure (h.leaf rfl trivial rfl)
  | .cont e, _, _, h => by
    rw [Stmt.lowerForm]
    exact ends_pure (h.leaf rfl trivial rfl)
  | .forLoop e init test update body, _, _, h => by
    obtain ⟨_, header, last⟩ := lined_append.mp h.parts
    obtain ⟨_, header, third⟩ := lined_append.mp header
    obtain ⟨_, first, second⟩ := lined_append.mp header
    have last := lined_singleton.mp last
    rw [Stmt.lowerForm]
    refine (ForInit.lower_ends init first).bind fun _ first => ?_
    refine (Expr.lowerOption_ends test second).bind fun _ second => ?_
    refine (Expr.lowerOption_ends update third).bind fun _ third => ?_
    refine (ends_inner last (body.lowerForm_ends last)).bind fun _ last => ends_pure ?_
    exact h.placed rfl trivial (((first.append second).append third).append (lined_singleton.mpr last))
  | .whileLoop e test body, _, _, h => by
    obtain ⟨_, first, rest⟩ := lined_cons.mp h.parts
    have rest := lined_singleton.mp rest
    rw [Stmt.lowerForm]
    refine (test.lower_ends first).bind fun _ first => ?_
    refine (ends_inner rest (body.lowerForm_ends rest)).bind fun _ rest => ends_pure ?_
    exact h.placed rfl trivial (.cons first (lined_singleton.mpr rest))
  | .ifElse e test consequent alternate, _, _, h => by
    obtain ⟨_, first, rest⟩ := lined_cons.mp h.parts
    obtain ⟨_, second, rest⟩ := lined_cons.mp rest
    have closed : alternate.isSome = true → consequent.endsInOpenIf = false := by
      cases alternate with
      | none => exact nofun
      | some _ => exact fun _ => h.faithful
    rw [Stmt.lowerForm]
    -- the alternate is lowered first, which does not change where it lies
    refine ((Stmt.lowerOption_ends alternate rest).and (Stmt.isSome_lowerOption alternate)).bind
      fun _ ⟨third, same⟩ => ?_
    refine (test.lower_ends first).bind fun _ first => ?_
    refine ((ends_inner second (consequent.lowerForm_ends second)).and
      (ends_orUnknownStmt_opens consequent.lowerForm_opens)).bind fun _ ⟨second, opens⟩ => ends_pure ?_
    refine h.placed rfl trivial (.cons first (.cons second third)) fun isSome => ?_
    have closed := Bool.eq_false_iff.mp (closed (same ▸ isSome))
    exact Bool.eq_false_iff.mpr fun isOpen => closed (opens isOpen)
  | .other p, _, _, h => by
    rw [Stmt.lowerForm]
    exact ends_unsupported _

theorem Stmt.lowerOption_ends : (s : Option Stmt) → ∀ {lo hi : Nat},
    Lined (tree.Sits src) lo hi (s.toList.map .stmt) →
    (Stmt.lowerOption file s).Ends (fun t => Lined (Subtree.Placed tree.Within src file) lo hi (t.toList.map .stmt))
      (tree.Fails file)
  | none, _, _, h => by
    rw [Stmt.lowerOption]
    exact ends_pure (.nil h.le)
  | some s, _, _, h => by
    have h := lined_singleton.mp h
    rw [Stmt.lowerOption]
    refine (ends_inner h (s.lowerForm_ends h)).bind fun _ s => ends_pure ?_
    exact lined_singleton.mpr s

theorem Stmt.lowerAll_ends : (ss : List Stmt) → ∀ {lo hi : Nat}, Lined (tree.Sits src) lo hi (ss.map .stmt) →
    (Stmt.lowerAll file ss).Ends (fun ts => Lined (Subtree.Placed tree.Within src file) lo hi (ts.map .stmt))
      (tree.Fails file)
  | [], _, _, h => by
    rw [Stmt.lowerAll]
    exact ends_pure (.nil h.le)
  | s :: ss, _, _, h => by
    obtain ⟨_, first, rest⟩ := lined_cons.mp h
    rw [Stmt.lowerAll]
    refine (ends_inner first (s.lowerForm_ends first)).bind fun _ first => ?_
    exact (Stmt.lowerAll_ends ss rest).bind fun _ rest => ends_pure (.cons first rest)

end

/-- A statement of a source is lowered to one at its place, unless a literal in it has no value. -/
theorem Stmt.lower_ends (file : String) {s : Stmt} (h : (Node.stmt s).Lies src lo hi) :
    (s.lower file).Ends (fun t => (Subtree.stmt t).Placed (Node.stmt s).Within src file lo hi)
      fun e => ∃ l, (Node.stmt s).Within (.literal l) ∧ l.Fails file e :=
  ends_orUnknownStmt ⟨h, .refl⟩ (s.lowerForm_ends ⟨h, .refl⟩)

/-- The node is part of a source. -/
def Program.Holds (p : Program) (node : Node) : Prop := ∃ s ∈ p.body, (Node.stmt s).Within node

end Surface

/-! ## Sources -/

namespace Reading

variable {src : List Symbol} {file : String} {lo mid hi : Nat} {holds : Surface.Node → Prop}

/-- A statement of a source is added to what was read before, or else the error of a literal in it. -/
theorem add_cases (r : Reading) {s : Surface.Stmt} (h : (Surface.Node.stmt s).Lies src lo hi) :
    (∃ t, (Subtree.stmt t).Placed (Surface.Node.stmt s).Within src file lo hi ∧
      (r.add file s).program = { r.program with body := r.program.body ++ [t] } ∧ (r.add file s).errors = r.errors) ∨
    (∃ e l, (Surface.Node.stmt s).Within (.literal l) ∧ l.Fails file e ∧
      (r.add file s).program = r.program ∧ (r.add file s).errors = r.errors ++ [e]) := by
  have ends := Surface.Stmt.lower_ends file h r.log
  rw [add]
  split
  · next t log run =>
    rw [run] at ends
    exact .inl ⟨t, ends, rfl, rfl⟩
  · next e log run =>
    rw [run] at ends
    obtain ⟨l, within, fails⟩ := ends
    exact .inr ⟨e, l, within, fails, rfl, rfl⟩

/-- The statements of a source one after the other. -/
theorem foldl_add {ss : List Surface.Stmt} (h : Surface.Node.AllLie src mid hi (ss.map .stmt))
    (held : ∀ s ∈ ss, ∀ node, (Surface.Node.stmt s).Within node → holds node) (r : Reading)
    (body : Lined (Subtree.Placed holds src file) lo mid (r.program.body.map .stmt)) :
    (ss.foldl (add file) r).program.span = r.program.span ∧
    Lined (Subtree.Placed holds src file) lo hi ((ss.foldl (add file) r).program.body.map .stmt) ∧
    ∀ e ∈ (ss.foldl (add file) r).errors,
      e ∈ r.errors ∨ ∃ s ∈ ss, ∃ l, (Surface.Node.stmt s).Within (.literal l) ∧ l.Fails file e := by
  induction ss generalizing mid r with
  | nil => exact ⟨rfl, body.mono le_rfl h.le, fun e mem => .inl mem⟩
  | cons s ss ih =>
    obtain ⟨next, first, rest⟩ := lined_cons.mp h
    have here : s ∈ s :: ss := List.mem_cons_self ..
    rw [List.foldl_cons]
    rcases r.add_cases first with ⟨t, placed, program, errors⟩ | ⟨e, l, within, fails, program, errors⟩
    · have body : Lined (Subtree.Placed holds src file) lo next ((r.add file s).program.body.map .stmt) := by
        rw [program, List.map_append]
        exact body.append (lined_singleton.mpr (placed.imp (held s here)))
      obtain ⟨span, body, failed⟩ := ih rest (fun s mem => held s (List.mem_cons_of_mem _ mem)) (r.add file s) body
      refine ⟨span.trans (by rw [program]), body, fun e mem => ?_⟩
      rcases failed e mem with mem | ⟨s', mem, l, found⟩
      · exact .inl (errors ▸ mem)
      · exact .inr ⟨s', List.mem_cons_of_mem _ mem, l, found⟩
    · have body : Lined (Subtree.Placed holds src file) lo next ((r.add file s).program.body.map .stmt) := by
        rw [program]
        exact body.mono le_rfl first.extent.le
      obtain ⟨span, body, failed⟩ := ih rest (fun s mem => held s (List.mem_cons_of_mem _ mem)) (r.add file s) body
      refine ⟨span.trans (by rw [program]), body, fun e' mem => ?_⟩
      rcases failed e' mem with mem | ⟨s', mem, l, found⟩
      · rw [errors, List.mem_append, List.mem_singleton] at mem
        rcases mem with mem | rfl
        · exact .inl mem
        · exact .inr ⟨s, here, l, within, fails⟩
      · exact .inr ⟨s', List.mem_cons_of_mem _ mem, l, found⟩

variable {p : Surface.Program} (h : p.Lies src)
include h

/-- The statements that are read of a source are at their places, and what cannot be read are literals. -/
theorem ofSurface_placed : (ofSurface file p).program.span = p.extent.toSpan file ∧
    Lined (Subtree.Placed p.Holds src file) p.extent.start.offset p.extent.stop.offset
      ((ofSurface file p).program.body.map .stmt) ∧
    ∀ e ∈ (ofSurface file p).errors, ∃ l, p.Holds (.literal l) ∧ l.Fails file e := by
  have start : Lined (Subtree.Placed p.Holds src file) p.extent.start.offset p.extent.start.offset [] := .nil le_rfl
  have held : ∀ s ∈ p.body, ∀ node, (Surface.Node.stmt s).Within node → p.Holds node :=
    fun s mem _ within => ⟨s, mem, within⟩
  obtain ⟨span, body, failed⟩ := foldl_add h.body held ⟨⟨p.extent.toSpan file, []⟩, [], []⟩ start
  refine ⟨span, body, fun e mem => ?_⟩
  rcases failed e mem with mem | ⟨s, mem, l, within, fails⟩
  · cases mem
  · exact ⟨l, ⟨s, mem, within⟩, fails⟩

/-- The program that is read of a source stands in the source. -/
theorem stands_ofSurface :
    (Subtree.program (ofSurface file p).program).Stands src file 0 (Symbol.sizes src) := by
  have extent := h.extent
  obtain ⟨span, body, -⟩ := ofSurface_placed h
  refine ⟨span, { extent with upper := le_rfl }, extent.ordered.trans extent.upper, trivial, ?_,
    body.imp fun _ placed => placed.stands, extent.upper⟩
  exact fun child mem => (body.of_mem mem).upper

/-- Every piece of the program has the shape of what is read. -/
theorem shaped_ofSurface {t : Subtree} (within : (Subtree.program (ofSurface file p).program).Within t) :
    t.Shaped p.Holds src file := by
  obtain ⟨-, body, -⟩ := ofSurface_placed h
  have here : (Subtree.program (ofSurface file p).program).Shaped p.Holds src file := ⟨trivial, trivial⟩
  exact Subtree.forall_within here (fun child mem => (body.of_mem mem).shaped) t within

theorem formed_ofSurface {t : Subtree} (within : (Subtree.program (ofSurface file p).program).Within t) :
    t.Formed (Quoted.IsContent src) :=
  (shaped_ofSurface h within).formed

/-- What cannot be read of a source are literals without a value. -/
theorem errors_ofSurface {e : Located ReadError} (mem : e ∈ (ofSurface file p).errors) :
    ∃ l, p.Holds (.literal l) ∧ l.Fails file e :=
  (ofSurface_placed h).2.2 e mem

end Reading

end IndexedLoop
