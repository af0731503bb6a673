import IndexedLoop.Proofs.FreshNames
import IndexedLoop.Proofs.Idiom
import IndexedLoop.Proofs.RoundTrip

/-!
# A conversion keeps programs canonical

The loop that a conversion puts in place of a statement is canonical if the statement is and its names are
names (`ForEach.canonical_toLoop`): the receiver may stand wherever the loop repeats it, the parameters may be
declared, and the loop ends in a block, so it takes no `else` that follows. A walk keeps what the rest of a tree
sees of the parts that it changes (`Expr.Resembles`). So the text of what a conversion makes of a canonical
program is read back as well (`Converter.convert_canonical`).
-/

namespace IndexedLoop

open Conversion Lexical

/-! ## Names -/

theorem Lexical.NameText.append {xs ys : List Char} (hx : NameText xs) (hy : NameText ys) :
    NameText (xs ++ ys) := by
  induction hx with
  | nil => exact hy
  | char word _ ih => exact .char word ih
  | escape four hex _ ih => simpa using NameText.escape four hex ih
  | braced some hex _ ih => simpa using NameText.braced some hex ih

namespace NameSupply

theorem nameText_numbered {stem : String} (h : NameText stem.toList) (n : Nat) :
    NameText (numbered stem n).toList := by
  have digits : NameText (Nat.toDigits 10 n) := .of_chars fun c mem => by
    have digit := Nat.isDigit_of_mem_toDigits (by decide) (Nat.le_refl 10) mem
    exact isWordChar_of_hexDigit (by simp [isHexDigit, digit])
  rw [toList_numbered]
  exact .char (by decide) (h.append digits)

theorem not_reserved_dollar : ∀ word ∈ reservedWords, word.toList.head? ≠ some '$' := by decide

/-- A drawn name can be declared. -/
theorem isBinding_numbered {stem : String} (h : NameText stem.toList) (n : Nat) :
    (Identifier.synthesized (numbered stem n)).IsBinding := by
  have first : (numbered stem n).toList.head? = some '$' := by simp [toList_numbered]
  refine ⟨⟨⟨nameText_numbered h n, '$', first, by decide⟩, fun mem => ?_⟩, fun e => ?_⟩
  · exact not_reserved_dollar _ mem first
  · have e : numbered stem n = "undefined" := e
    rw [e] at first
    exact absurd first (by decide)

end NameSupply

/-! ## What the rest of a tree sees -/

namespace Expr

/-- The second expression may stand wherever the first one may: it is the same name or literal, a place if the
first one is, and a sequence only if the first one is. -/
structure Resembles (e f : Expr) : Prop where
  identifier (id : Identifier) : f = .identifier id ↔ e = .identifier id
  literal (lit : Literal) : e = .literal lit → f = .literal lit
  place : e.IsPlace → f.IsPlace
  sequence : f.isSequence = e.isSequence

namespace Resembles

variable {e f : Expr}

theorem refl (e : Expr) : e.Resembles e := ⟨fun _ => Iff.rfl, fun _ => id, id, rfl⟩

theorem isProperty (h : e.Resembles f) (property : e.IsProperty) : f.IsProperty := by
  cases e with
  | identifier id => rwa [(h.identifier id).mpr rfl]
  | _ => cases property

theorem isKey (h : e.Resembles f) (key : e.IsKey) : f.IsKey := by
  cases e with
  | identifier id => rwa [(h.identifier id).mpr rfl]
  | literal lit => rwa [h.literal lit rfl]
  | _ => cases key

theorem isParam (h : e.Resembles f) (param : e.IsParam) : f.IsParam := by
  cases e with
  | identifier id => rwa [(h.identifier id).mpr rfl]
  | _ => cases param

end Resembles

theorem isParam_of_forall₂ {es fs : List Expr} (h : List.Forall₂ Resembles es fs)
    (params : ∀ p ∈ es, p.IsParam) : ∀ p ∈ fs, p.IsParam := by
  induction h with
  | nil => exact params
  | cons first _ ih =>
    rw [List.forall_mem_cons] at params ⊢
    exact ⟨first.isParam params.1, ih params.2⟩

theorem not_sequence_of_forall₂ {es fs : List Expr} (h : List.Forall₂ Resembles es fs)
    (flat : ∀ e ∈ es, e.isSequence = false) : ∀ e ∈ fs, e.isSequence = false := by
  induction h with
  | nil => exact flat
  | cons first _ ih =>
    rw [List.forall_mem_cons] at flat ⊢
    exact ⟨first.sequence.trans flat.1, ih flat.2⟩

end Expr

/-- The rule looks at what resembling expressions have in common. -/
def TargetRule.Stable (rule : TargetRule) : Prop :=
  ∀ (op : AssignOp) (e f : Expr), e.Resembles f → rule op e → rule op f

theorem anyTarget_stable : anyTarget.Stable := fun _ _ _ _ _ => trivial

theorem definedTarget_stable : definedTarget.Stable := fun _ _ _ h target compound id e =>
  target compound id ((h.identifier id).mp e)

/-- The second statement may stand wherever the first one may. -/
structure Stmt.Resembles (rule : TargetRule) (s t : Stmt) : Prop where
  open_if : t.endsInOpenIf = s.endsInOpenIf
  canonical : s.Canonical rule → t.Canonical rule

/-! ## The loop -/

namespace ForEach

section

variable {rule : TargetRule}

theorem canonicalStmts_append {xs ys : List Stmt} (hx : canonicalStmts rule xs) (hy : canonicalStmts rule ys) :
    canonicalStmts rule (xs ++ ys) := by
  induction xs with
  | nil => exact hy
  | cons s rest ih => exact ⟨hx.1, ih hx.2⟩

theorem canonical_zero (rule : TargetRule) : Expr.zero.Canonical rule := by
  show (Binary64.zero false).isFinite = true ∧ (Binary64.zero false).negative = false
  decide

theorem canonical_argument {receiver : Expr} {index : String} (h : receiver.Canonical rule)
    (hi : (Identifier.synthesized index).IsReference) (k : Nat) : (argument receiver index k).Canonical rule := by
  unfold argument
  split
  · exact ⟨h, hi⟩
  · exact hi
  · exact h
  · exact canonical_zero rule

theorem canonical_bindings {receiver : Expr} {index : String} (h : receiver.Canonical rule)
    (hi : (Identifier.synthesized index).IsReference) {ids : List Identifier} (k : Nat)
    (names : ∀ id ∈ ids, id.IsBinding) : canonicalStmts rule (bindings receiver index k ids) := by
  induction ids generalizing k with
  | nil => exact trivial
  | cons id rest ih =>
    rw [List.forall_mem_cons] at names
    exact ⟨⟨by simp, names.1, canonical_argument h hi k, trivial⟩, ih (k + 1) names.2⟩

/-- The parts of the idiom that the loop is made of. -/
structure Canonical (rule : TargetRule) (each : ForEach) : Prop where
  receiver : each.receiver.Canonical rule
  params : ∀ id ∈ each.params, id.IsBinding
  body : canonicalStmts rule each.body.body

theorem Written.canonical {each : ForEach} {s : Stmt} (written : each.Written s) (h : s.Canonical rule) :
    each.Canonical rule := by
  cases written with
  | mk name this stays =>
    rename_i body _
    obtain ⟨⟨receiver, -⟩, ⟨-, params, statements⟩, -⟩ := h
    obtain ⟨_, _⟩ := body
    exact ⟨receiver, fun id mem => params _ (List.mem_map_of_mem mem), statements⟩

theorem isProperty_length : (Identifier.synthesized "length").IsProperty :=
  ⟨.of_chars (by decide), 'l', rfl, by decide⟩

/-- The loop is canonical if the statement is. -/
theorem canonical_toLoop {each : ForEach} (h : each.Canonical rule) {index length : String}
    (hi : (Identifier.synthesized index).IsBinding) (hl : (Identifier.synthesized length).IsBinding) :
    (Stmt.forLoop (each.toLoop index length)).Canonical rule := by
  refine ⟨⟨by simp, hi, canonical_zero rule, hl, ⟨h.receiver, isProperty_length⟩, trivial⟩, ⟨hi.1, hl.1⟩,
    ⟨trivial, hi.1⟩, ?_⟩
  exact canonicalStmts_append (canonical_bindings h.receiver hi.1 0 h.params) h.body

end

end ForEach

/-! ## The law of a conversion -/

theorem Stmt.Resembles.trans {rule : TargetRule} {s t u : Stmt} (h : s.Resembles rule t) (h' : t.Resembles rule u) :
    s.Resembles rule u :=
  ⟨h'.open_if.trans h.open_if, fun canonical => h'.canonical (h.canonical canonical)⟩

section

variable {config : Config} (index : NameText config.indexStem.toList) (length : NameText config.lengthStem.toList)

include index length

/-- The loop may stand wherever the statement may. -/
theorem resembles_convertStmt (rule : TargetRule) (s : Stmt) (st : Conversion) :
    s.Resembles rule (convertStmt config s st).1 := by
  rcases convertStmt_cases config s st with e | ⟨each, m, n, written, e⟩
  · rw [e]
    exact ⟨rfl, id⟩
  · rw [e]
    refine ⟨?_, fun canonical => ?_⟩
    · cases written
      rfl
    · exact ForEach.canonical_toLoop (written.canonical canonical) (NameSupply.isBinding_numbered index m)
        (NameSupply.isBinding_numbered length n)

end

/-- A conversion leaves a canonical node canonical, and as good as it was for the place where it stands. -/
def keepsCanonical (rule : TargetRule) : Law Conversion where
  expr e _ r := e.Resembles r.1 ∧ (e.Canonical rule → r.1.Canonical rule)
  exprs es _ r := List.Forall₂ Expr.Resembles es r.1 ∧ (canonicalExprs rule es → canonicalExprs rule r.1)
  elements es _ r := canonicalElements rule es → canonicalElements rule r.1
  properties ps _ r := canonicalProperties rule ps → canonicalProperties rule r.1
  function f _ r := (Expr.function f).Canonical rule → (Expr.function r.1).Canonical rule
  block b _ r := b.Canonical rule → r.1.Canonical rule
  stmts ss _ r := canonicalStmts rule ss → canonicalStmts rule r.1
  declarators ds _ r := (r.1 = [] → ds = []) ∧ (canonicalDeclarators rule ds → canonicalDeclarators rule r.1)
  option e _ r := canonicalOption rule e → canonicalOption rule r.1
  forInit i _ r := canonicalForInit rule i → canonicalForInit rule r.1
  branch s _ r := Option.Rel (Stmt.Resembles rule) s r.1
  inside s _ r := s.Resembles rule r.1
  stmt s _ r := s.Resembles rule r.1

theorem keepsCanonical_closed {config : Config} {rule : TargetRule} (stable : rule.Stable)
    (index : NameText config.indexStem.toList) (length : NameText config.lengthStem.toList) :
    (keepsCanonical rule).Closed (convertStmt config) := by
  constructor
  all_goals simp only [keepsCanonical]
  all_goals intros
  case change h => exact (resembles_convertStmt index length rule _ _).trans h
  -- expressions
  case assignment hl hr =>
    exact ⟨⟨by simp, by simp, id, rfl⟩, fun ⟨target, place, left, right⟩ =>
      ⟨stable _ _ _ hl.1 target, hl.1.place place, hl.2 left, hr.2 right⟩⟩
  case update ha =>
    exact ⟨⟨by simp, by simp, id, rfl⟩, fun ⟨place, argument⟩ => ⟨ha.1.place place, ha.2 argument⟩⟩
  case sequence hs =>
    refine ⟨⟨by simp, by simp, id, rfl⟩, fun ⟨several, flat, expressions⟩ =>
      ⟨?_, Expr.not_sequence_of_forall₂ hs.1 flat, hs.2 expressions⟩⟩
    rwa [← hs.1.length_eq]
  case member access _ _ _ ho hp =>
    refine ⟨⟨by simp, by simp, id, rfl⟩, fun ⟨object, property⟩ => ⟨ho.2 object, ?_⟩⟩
    cases access with
    | dot => exact hp.1.isProperty property
    | bracket => exact hp.2 property
    | other tag => exact property
  case functionExpr hf => exact ⟨⟨by simp, by simp, id, rfl⟩, hf⟩
  case conditional ht hc ha =>
    exact ⟨⟨by simp, by simp, id, rfl⟩, fun ⟨test, consequent, alternate⟩ =>
      ⟨ht.2 test, hc.2 consequent, ha.2 alternate⟩⟩
  case binary hl hr | call hl hr | new hl hr =>
    exact ⟨⟨by simp, by simp, id, rfl⟩, fun ⟨left, right⟩ => ⟨hl.2 left, hr.2 right⟩⟩
  case unary h => exact ⟨⟨by simp, by simp, id, rfl⟩, h.2⟩
  case object h | array h => exact ⟨⟨by simp, by simp, id, rfl⟩, h⟩
  case this | identifier | literal | unknown => exact ⟨.refl _, id⟩
  -- lists and parts
  case exprs_cons he hs => exact ⟨.cons he.1 hs.1, fun ⟨first, rest⟩ => ⟨he.2 first, hs.2 rest⟩⟩
  case exprs_nil => exact ⟨.nil, id⟩
  case elements_hole hs canonical => exact hs canonical
  case elements_cons he hs canonical => exact ⟨he.2 canonical.1, hs canonical.2⟩
  case properties_cons hk hv hs canonical =>
    exact ⟨hk.1.isKey canonical.1, hv.2 canonical.2.1, hs canonical.2.2⟩
  case functions f _ _ _ hp hb canonical =>
    obtain ⟨_, _, _, _⟩ := f
    exact ⟨canonical.1, Expr.isParam_of_forall₂ hp.1 canonical.2.1, hb canonical.2.2⟩
  case blocks b _ _ hs canonical =>
    obtain ⟨_, _⟩ := b
    exact hs canonical
  case stmts_cons hs hr canonical => exact ⟨hs.canonical canonical.1, hr canonical.2⟩
  case declarators_nil => exact ⟨id, id⟩
  case declarators_cons hi hs =>
    exact ⟨by simp, fun ⟨name, init, rest⟩ => ⟨name, hi init, hs.2 rest⟩⟩
  case option_some he canonical => exact he.2 canonical
  case forInit_declaration d _ _ hs canonical =>
    obtain ⟨_, _, _⟩ := d
    exact ⟨fun none => canonical.1 (hs.1 none), hs.2 canonical.2⟩
  case forInit_expression he canonical => exact he.2 canonical
  case branch_none => exact .none
  case branch_some h => exact .some h
  -- statements
  case declaration d _ _ hs =>
    obtain ⟨_, _, _⟩ := d
    exact ⟨rfl, fun canonical => ⟨fun none => canonical.1 (hs.1 none), hs.2 canonical.2⟩⟩
  case functionDecl f _ _ _ hp hb =>
    obtain ⟨_, _, _, _⟩ := f
    exact ⟨rfl, fun ⟨name, params, body⟩ => ⟨name, Expr.isParam_of_forall₂ hp.1 params, hb body⟩⟩
  case blockStmt h => exact ⟨rfl, h⟩
  case ret h => exact ⟨rfl, h⟩
  case throw h | expression h => exact ⟨rfl, h.2⟩
  case forLoop l _ _ _ _ _ hi ht hu hb =>
    obtain ⟨_, _, _, _, _⟩ := l
    exact ⟨hb.open_if, fun ⟨init, test, update, body⟩ => ⟨hi init, ht test, hu update, hb.canonical body⟩⟩
  case whileLoop l _ _ _ ht hb =>
    obtain ⟨_, _, _⟩ := l
    exact ⟨hb.open_if, fun ⟨test, body⟩ => ⟨ht.2 test, hb.canonical body⟩⟩
  case ifElse i _ _ _ a ht hc ha =>
    obtain ⟨_, _, _, _⟩ := i
    obtain ⟨_, _⟩ := a
    cases ha with
    | none => exact ⟨rfl, fun ⟨test, consequent⟩ => ⟨ht.2 test, hc.canonical consequent⟩⟩
    | some ha =>
      exact ⟨ha.open_if, fun ⟨test, consequent, closed, alternate⟩ =>
        ⟨ht.2 test, hc.canonical consequent, hc.open_if.trans closed, ha.canonical alternate⟩⟩
  all_goals first | exact ⟨rfl, id⟩ | assumption

theorem canonicalStmts_walkStmts {config : Config} {rule : TargetRule} (stable : rule.Stable)
    (index : NameText config.indexStem.toList) (length : NameText config.lengthStem.toList) {ss : List Stmt}
    (h : canonicalStmts rule ss) (st : Conversion) : canonicalStmts rule (walkStmts (hooks config) ss st).1 := by
  have closed : (keepsCanonical rule).Closed (hooks config).stmt := keepsCanonical_closed stable index length
  exact (closed.holds (Hooks.onStatements_idle _ _)).stmts ss st h

/-! ## Converted programs -/

namespace Converter

end Converter

/-- A word that is no reserved one refers to a variable. -/
theorem Identifier.isReference_of_word {w : String} (chars : ∀ c ∈ w.toList, isWordChar c = true)
    (first : (w.toList.head?.any fun c => !c.isDigit) = true) (reserved : w ∉ reservedWords) :
    (Identifier.synthesized w).IsReference := by
  obtain ⟨c, head, digit⟩ := (Option.any_eq_true _ _).mp first
  exact ⟨⟨.of_chars chars, c, head, by simpa using digit⟩, reserved⟩

theorem Converter.canonical_forEachOver {rule : TargetRule} {a x : String}
    (ha : (Identifier.synthesized a).IsReference) (hx : (Identifier.synthesized x).IsBinding) {body : List Stmt}
    (h : canonicalStmts rule body) : (forEachOver a x body).Canonical rule := by
  have forEach := Identifier.isReference_of_word (w := "forEach") (by decide) (by decide) (by decide)
  exact ⟨⟨ha, forEach.1⟩, ⟨by simp, List.forall_mem_singleton.mpr hx, h⟩, trivial⟩

/-- The program `if (a) a.forEach(function (x) {f(x);}); else f(a);`. -/
def exampleBranch : Program :=
  let call (argument : String) : Stmt := .expression .none (.call .none (Expr.ident "f") [Expr.ident argument])
  ⟨.none, [.ifElse ⟨.none, Expr.ident "a", Converter.forEachOver "a" "x" [call "x"], some (call "a")⟩]⟩

theorem exampleBranch_canonical : exampleBranch.Canonical definedTarget := by
  have a := Identifier.isReference_of_word (w := "a") (by decide) (by decide) (by decide)
  have f := Identifier.isReference_of_word (w := "f") (by decide) (by decide) (by decide)
  have x := Identifier.isReference_of_word (w := "x") (by decide) (by decide) (by decide)
  have body : canonicalStmts definedTarget [.expression .none (.call .none (Expr.ident "f") [Expr.ident "x"])] :=
    ⟨⟨f, x, trivial⟩, trivial⟩
  exact ⟨⟨a, Converter.canonical_forEachOver a ⟨x, by decide⟩ body, rfl, f, a, trivial⟩, trivial⟩

theorem convert_exampleBranch : ((Converter.new {}).convert exampleBranch).1.body =
    [.ifElse ⟨.none, Expr.ident "a",
      .forLoop (ForEach.toLoop ⟨Expr.ident "a", [.synthesized "x"],
        ⟨.none, [.expression .none (.call .none (Expr.ident "f") [Expr.ident "x"])]⟩⟩ "$i1" "$len2"),
      some (.expression .none (.call .none (Expr.ident "f") [Expr.ident "a"]))⟩] := by
  cbv

/-- The program `a.forEach(function (x) {undefined += x;});`. -/
def exampleCompound : Program :=
  ⟨.none, [Converter.forEachOver "a" "x"
    [.expression .none (.assignment .none .add (Expr.ident "undefined") (Expr.ident "x"))]]⟩

theorem exampleCompound_canonical : exampleCompound.Canonical anyTarget := by
  have a := Identifier.isReference_of_word (w := "a") (by decide) (by decide) (by decide)
  have x := Identifier.isReference_of_word (w := "x") (by decide) (by decide) (by decide)
  have undefined := Identifier.isReference_of_word (w := "undefined") (by decide) (by decide) (by decide)
  exact ⟨Converter.canonical_forEachOver a ⟨x, by decide⟩ ⟨⟨trivial, trivial, undefined, x⟩, trivial⟩, trivial⟩

theorem convert_exampleCompound : ((Converter.new {}).convert exampleCompound).1.body =
    [.forLoop (ForEach.toLoop ⟨Expr.ident "a", [.synthesized "x"], ⟨.none,
      [.expression .none (.assignment .none .add (Expr.ident "undefined") (Expr.ident "x"))]⟩⟩
      "$i1" "$len2")] := by
  cbv

end IndexedLoop
