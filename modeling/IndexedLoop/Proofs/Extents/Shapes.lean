import IndexedLoop.Lowering
import IndexedLoop.Printer
import IndexedLoop.Proofs.Extents.Tree
import IndexedLoop.Proofs.NumberTokens
import IndexedLoop.Proofs.RoundTrip.Stands
import IndexedLoop.Proofs.Subtrees

/-!
# The shapes of lowered trees

A tree may hold what no source is read as: a sequence of nothing, a key that is a call, a branch whose `else` would be
taken by another. `Subtree.Formed` says which shape the pieces of a tree have that was lowered. Much of it comes of
the lowering alone, whatever the surface tree is like: a list keeps its length, a parameter is a name or unknown, and
a statement that ends in no open branch is lowered to one that does not either.
-/

namespace IndexedLoop

/-! ## How a lowering ends -/

namespace Lower

variable {α β : Type} {m : Lower α} {ok ok' : α → Prop} {fails fails' : Located ReadError → Prop}

/-- A result of the lowering satisfies `ok`, and an error `fails`. -/
def Ends (m : Lower α) (ok : α → Prop) (fails : Located ReadError → Prop) : Prop :=
  ∀ log, match (m.run log).1 with
    | .ok a => ok a
    | .error e => fails e

theorem Ends.mono (h : m.Ends ok fails) (hok : ∀ a, ok a → ok' a) (hfails : ∀ e, fails e → fails' e) :
    m.Ends ok' fails' := by
  intro log
  have h := h log
  split at h
  · exact hok _ h
  · exact hfails _ h

/-- Nothing is said of how the lowering ends. -/
theorem ends_trivial : m.Ends (fun _ => True) fun _ => True := by
  intro log
  split <;> trivial

/-- A result of the lowering is one that it gives. -/
theorem ends_self : m.Ends (fun a => ∃ log, (m.run log).1 = .ok a) fun _ => True := by
  intro log
  split
  · next a run => exact ⟨log, run⟩
  · trivial

theorem Ends.and (h : m.Ends ok fails) (h' : m.Ends ok' fun _ => True) : m.Ends (fun a => ok a ∧ ok' a) fails := by
  intro log
  have h := h log
  have h' := h' log
  split at h
  · next run =>
    rw [run] at h'
    exact ⟨h, h'⟩
  · exact h

theorem ends_pure {a : α} (h : ok a) : Ends (pure a) ok fails := fun _ => h

theorem Ends.bind {f : α → Lower β} {ok' : β → Prop} (h : m.Ends ok fails) (hf : ∀ a, ok a → (f a).Ends ok' fails) :
    (m >>= f).Ends ok' fails := by
  intro log
  have h := h log
  change match ((ExceptT.run m >>= ExceptT.bindCont f : StateM _ _) log).1 with
    | .ok a => ok' a
    | .error e => fails e
  rw [run_bind]
  generalize m.run log = result at h
  obtain ⟨a | e, log'⟩ := result
  · exact h
  · exact hf _ h log'

theorem ends_failAt {file : String} {extent : Extent} {cause : ReadError}
    (h : fails (.here cause (extent.toSpan file))) : Ends (failAt file extent cause : Lower α) ok fails :=
  fun _ => h

theorem ends_warn (text : String) : Ends (warn text) (fun _ => True) fails := fun _ => trivial

/-- What has no form is unknown. -/
theorem Ends.orUnknown {what file : String} {p : Surface.Piece} {unknown : Unknown → α} (h : m.Ends ok fails)
    (hu : ok (unknown ⟨p.extent.toSpan file, p.construct.name⟩)) :
    (orUnknown what file p unknown m).Ends ok fun e => fails e ∧ e.cause.isUnsupported = false := by
  have caught (handle : Located ReadError → Lower α)
      (hc : ∀ e, fails e → (handle e).Ends ok fun e => fails e ∧ e.cause.isUnsupported = false) :
      (tryCatch m handle).Ends ok fun e => fails e ∧ e.cause.isUnsupported = false := by
    intro log
    have h := h log
    change match ((ExceptT.tryCatch m handle).run log).1 with
      | .ok a => ok a
      | .error e => fails e ∧ e.cause.isUnsupported = false
    rw [ExceptT.tryCatch, ExceptT.run_mk, run_bind]
    change match (m log).1 with
      | .ok a => ok a
      | .error e => fails e at h
    generalize m log = result at h
    obtain ⟨e | a, log'⟩ := result
    · exact hc e h log'
    · exact h
  refine caught _ fun e he => ?_
  split
  · exact (ends_warn _).bind fun _ _ => ends_pure hu
  · next unsupported => exact fun _ => ⟨he, Bool.eq_false_iff.mpr unsupported⟩

end Lower

/-! ## Shapes -/

namespace Expr

/-- The expression is a name. -/
def isName : Expr → Bool
  | .identifier _ => true
  | _ => false

/-- The expression is a name, or a pattern, which has no form. -/
def isNameOrUnknown : Expr → Bool
  | .identifier _ | .unknown _ => true
  | _ => false

/-- The expression is a name or a literal. -/
def isNameOrLiteral : Expr → Bool
  | .identifier _ | .literal _ => true
  | _ => false

end Expr

/-- The expression is a sequence in parentheses. -/
def Surface.Expr.isGrouped : Surface.Expr → Bool
  | .parens _ inner => inner.isSequence || inner.isGrouped
  | _ => false

/-- The lowering of the expression gives this tree. -/
def Surface.Expr.Becomes (file : String) (e : Surface.Expr) (t : IndexedLoop.Expr) : Prop :=
  ∃ log, ((e.lower file).run log).1 = .ok t

/-- The value is one that a literal of a source has. -/
def Constant.Formed (body : String → Prop) : Constant → Prop
  | .string raw => body raw
  | .number value => value.IsUnsigned
  | .other kind _ => kind = "BigInt"
  | .boolean _ | .regExp _ | .null => True

namespace Subtree

/-- The piece itself has the shape of what is read from a source, where `body` says which bodies strings have. -/
def Formed (body : String → Prop) : Subtree → Prop
  | .expr (.member _ _ name access) => access = .bracket ∨ access = .dot ∧ name.isName = true
  | .expr (.literal lit) => lit.value.Formed body
  | .expr (.sequence _ expressions) => 2 ≤ expressions.length
  | .expr (.function fn) => ∀ e ∈ fn.params, e.isNameOrUnknown = true
  | .stmt (.functionDecl fn) => ∀ e ∈ fn.params, e.isNameOrUnknown = true
  | .stmt (.ifElse branch) => branch.alternate.isSome = true → branch.consequent.endsInOpenIf = false
  | .property p => p.key.isNameOrLiteral = true
  | .declaration d => d.declarators ≠ []
  | _ => True

theorem Formed.imp {body body' : String → Prop} (imp : ∀ raw, body raw → body' raw) {t : Subtree}
    (h : t.Formed body) : t.Formed body' := by
  cases t with
  | expr e =>
    cases e with
    | literal lit =>
      obtain ⟨span, value⟩ := lit
      cases value with
      | string raw => exact imp raw h
      | _ => exact h
    | _ => exact h
  | stmt s => cases s <;> exact h
  | _ => exact h

/-- A sequence comes from one of the source, operand by operand: only a sequence in parentheses becomes a sequence
among the operands. An array comes from one of the source, entry by entry: what is empty stays empty. -/
def Listed (holds : Surface.Node → Prop) (file : String) : Subtree → Prop
  | .expr (.sequence span expressions) => ∃ extent items, holds (.expr (.sequence extent items)) ∧
      span = extent.toSpan file ∧
      expressions.map Expr.isSequence = items.map fun item => item.isSequence || item.isGrouped
  | .expr (.array span elements) => ∃ extent items, holds (.expr (.array extent items)) ∧ span = extent.toSpan file ∧
      List.Forall₂ (Option.Rel (Surface.Expr.Becomes file)) items elements
  | _ => True

theorem Listed.imp {holds holds' : Surface.Node → Prop} (imp : ∀ node, holds node → holds' node) {file : String}
    {t : Subtree} (h : t.Listed holds file) : t.Listed holds' file := by
  cases t with
  | expr e =>
    cases e with
    | sequence span expressions =>
      obtain ⟨extent, items, here, rest⟩ := h
      exact ⟨extent, items, imp _ here, rest⟩
    | array span elements =>
      obtain ⟨extent, items, here, rest⟩ := h
      exact ⟨extent, items, imp _ here, rest⟩
    | _ => exact h
  | _ => exact h

/-- What holds of a piece and of all below its children holds of all below it. -/
theorem forall_within {holds : Subtree → Prop} {t : Subtree} (here : holds t)
    (below : ∀ child ∈ t.children, ∀ u, child.Within u → holds u) : ∀ u, t.Within u → holds u := by
  intro u within
  rcases Relation.ReflTransGen.cases_head within with rfl | ⟨child, mem, rest⟩
  · exact here
  · exact below child mem u rest

end Subtree

/-! ## What every lowering does -/

namespace Surface

open Lower

variable {file : String}

/-- An expression without a form is unknown, and no sequence. -/
theorem ends_orUnknownExpr_single {m : Lower IndexedLoop.Expr} {p : Piece}
    (h : m.Ends (fun t => t.isSequence = false) fun _ => True) :
    (orUnknownExpr file p m).Ends (fun t => t.isSequence = false) fun _ => True :=
  (h.orUnknown rfl).mono (fun _ => id) fun _ _ => trivial

/-- Parentheses go away, and nothing but a sequence is lowered to a sequence. -/
theorem Expr.lower_isSequence : (e : Expr) →
    (e.lower file).Ends (fun t => t.isSequence = (e.isSequence || e.isGrouped)) fun _ => True
  | .parens e inner => by
    rw [Expr.lower]
    exact inner.lower_isSequence
  | .name .. | .this .. => by
    rw [Expr.lower]
    exact ends_pure rfl
  | .literal .. | .unary .. | .update .. | .sequence .. | .array .. => by
    rw [Expr.lower]
    exact ends_trivial.bind fun _ _ => ends_pure rfl
  | .function .. | .dot .. => by
    rw [Expr.lower]
    exact ends_trivial.bind fun _ _ => ends_pure rfl
  | .assignment .. | .binary .. | .call .. | .new .. | .subscript .. => by
    rw [Expr.lower]
    exact ends_trivial.bind fun _ _ => ends_trivial.bind fun _ _ => ends_pure rfl
  | .conditional .. => by
    rw [Expr.lower]
    exact ends_trivial.bind fun _ _ => ends_trivial.bind fun _ _ => ends_trivial.bind fun _ _ => ends_pure rfl
  | .object .. => by
    rw [Expr.lower]
    exact ends_orUnknownExpr_single (ends_trivial.bind fun _ _ => ends_pure rfl)
  | .spread .. | .other .. => by
    rw [Expr.lower]
    exact ends_orUnknownExpr_single (ends_failAt trivial)

theorem Expr.lowerAll_isSequence (es : List Expr) : (Expr.lowerAll file es).Ends
    (fun ts => ts.map IndexedLoop.Expr.isSequence = es.map fun e => e.isSequence || e.isGrouped) fun _ => True := by
  induction es with
  | nil =>
    rw [Expr.lowerAll]
    exact ends_pure rfl
  | cons e es ih =>
    rw [Expr.lowerAll]
    refine e.lower_isSequence.bind fun _ first => ih.bind fun _ rest => ends_pure ?_
    rw [List.map_cons, List.map_cons, first, rest]

/-- Each entry of an array is lowered by itself, and only an element can fail. -/
theorem Expr.lowerElements_becomes {fails : Located ReadError → Prop} {es : List (Option Expr)}
    (h : ∀ e, some e ∈ es → (e.lower file).Ends (fun _ => True) fails) :
    (Expr.lowerElements file es).Ends (fun ts => List.Forall₂ (Option.Rel (Becomes file)) es ts) fails := by
  induction es with
  | nil =>
    rw [Expr.lowerElements]
    exact ends_pure .nil
  | cons e es ih =>
    have ih := ih fun e mem => h e (List.mem_cons_of_mem _ mem)
    cases e with
    | none =>
      rw [Expr.lowerElements]
      exact ih.bind fun _ rest => ends_pure (.cons .none rest)
    | some e =>
      rw [Expr.lowerElements]
      refine ((h e (List.mem_cons_self ..)).and ends_self).bind fun _ first => ih.bind fun _ rest => ?_
      exact ends_pure (.cons (.some first.2) rest)

theorem Declarator.length_lowerAll (ds : List Declarator) :
    (Declarator.lowerAll file ds).Ends (fun ts => ts.length = ds.length) fun _ => True := by
  induction ds with
  | nil =>
    rw [Declarator.lowerAll]
    exact ends_pure rfl
  | cons d ds ih =>
    rw [Declarator.lowerAll]
    exact ends_trivial.bind fun _ _ => ih.bind fun _ length => ends_pure (congrArg (· + 1) length)

theorem Stmt.isSome_lowerOption (s : Option Stmt) :
    (Stmt.lowerOption file s).Ends (fun t => t.isSome = s.isSome) fun _ => True := by
  cases s with
  | none =>
    rw [Stmt.lowerOption]
    exact ends_pure rfl
  | some s =>
    rw [Stmt.lowerOption]
    exact ends_trivial.bind fun _ _ => ends_pure rfl

/-- A parameter is a name or unknown. -/
theorem Binding.lower_isNameOrUnknown (b : Binding) :
    (b.lower file).Ends (fun e => e.isNameOrUnknown = true) fun _ => True := by
  cases b with
  | name n => exact ends_pure rfl
  | pattern p => exact (ends_warn _).bind fun _ _ => ends_pure rfl

theorem Function.lower_isNameOrUnknown (fn : Function) :
    (fn.lower file).Ends (fun r => ∀ e ∈ r.1, e.isNameOrUnknown = true) fun _ => True := by
  have params (bs : List Binding) :
      (bs.mapM (Binding.lower file)).Ends (fun es => ∀ e ∈ es, e.isNameOrUnknown = true) fun _ => True := by
    induction bs with
    | nil => exact ends_pure nofun
    | cons b bs ih =>
      rw [List.mapM_cons]
      refine b.lower_isNameOrUnknown.bind fun e first => ih.bind fun es rest => ends_pure ?_
      exact List.forall_mem_cons.mpr ⟨first, rest⟩
  cases fn with
  | mk bs body =>
    rw [Function.lower]
    exact (params bs).bind fun _ all => ends_trivial.bind fun _ _ => ends_pure all

/-- A key is a name or a literal. -/
theorem Key.lower_isNameOrLiteral (k : Key) :
    (k.lower file).Ends (fun e => e.isNameOrLiteral = true) fun _ => True := by
  cases k with
  | name n => exact ends_pure rfl
  | literal l => exact ends_trivial.bind fun _ _ => ends_pure rfl
  | other p => exact ends_failAt trivial

/-- A statement without a form is unknown, and ends in no open branch. -/
theorem ends_orUnknownStmt_opens {m : Lower IndexedLoop.Stmt} {p : Piece} {isOpen : Prop}
    (h : m.Ends (fun t => t.endsInOpenIf = true → isOpen) fun _ => True) :
    (orUnknownStmt file p m).Ends (fun t => t.endsInOpenIf = true → isOpen) fun _ => True := by
  have unknown : (IndexedLoop.Stmt.unknown ⟨p.extent.toSpan file, p.construct.name⟩).endsInOpenIf = true → isOpen :=
    fun opens => absurd opens Bool.false_ne_true
  exact (h.orUnknown unknown).mono (fun _ => id) fun _ _ => trivial

theorem ends_pure_closed {t : IndexedLoop.Stmt} {isOpen : Prop} (closed : t.endsInOpenIf = false) :
    (pure t : Lower _).Ends (fun t => t.endsInOpenIf = true → isOpen) fun _ => True :=
  ends_pure fun opens => absurd (closed.symm.trans opens) Bool.false_ne_true

/-- A statement that is lowered to one that ends in an open branch ends in an open branch itself. -/
theorem Stmt.lowerForm_opens : (s : Stmt) →
    (s.lowerForm file).Ends (fun t => t.endsInOpenIf = true → s.endsInOpenIf = true) fun _ => True
  | .ifElse e test consequent none => by
    rw [Stmt.lowerForm]
    exact ends_trivial.bind fun _ _ => ends_trivial.bind fun _ _ => ends_trivial.bind fun _ _ => ends_pure fun _ => rfl
  | .ifElse e test consequent (some alternate) => by
    rw [Stmt.lowerForm, Stmt.lowerOption, bind_assoc]
    refine (ends_orUnknownStmt_opens alternate.lowerForm_opens).bind fun _ opens => ?_
    rw [pure_bind]
    exact ends_trivial.bind fun _ _ => ends_trivial.bind fun _ _ => ends_pure opens
  | .forLoop e init test update body => by
    rw [Stmt.lowerForm]
    refine ends_trivial.bind fun _ _ => ends_trivial.bind fun _ _ => ends_trivial.bind fun _ _ => ?_
    exact (ends_orUnknownStmt_opens body.lowerForm_opens).bind fun _ opens => ends_pure opens
  | .whileLoop e test body => by
    rw [Stmt.lowerForm]
    refine ends_trivial.bind fun _ _ => ?_
    exact (ends_orUnknownStmt_opens body.lowerForm_opens).bind fun _ opens => ends_pure opens
  | .expression .. | .declaration .. | .block .. | .ret .. | .throw .. => by
    rw [Stmt.lowerForm]
    exact ends_trivial.bind fun _ _ => ends_pure_closed rfl
  | .function e flavour name fn => by
    rw [Stmt.lowerForm]
    split
    · exact ends_failAt trivial
    · exact ends_trivial.bind fun _ _ => ends_pure_closed rfl
  | .empty .. | .brk .. | .cont .. => by
    rw [Stmt.lowerForm]
    exact ends_pure_closed rfl
  | .other .. => by
    rw [Stmt.lowerForm]
    exact ends_failAt trivial

end Surface

end IndexedLoop
