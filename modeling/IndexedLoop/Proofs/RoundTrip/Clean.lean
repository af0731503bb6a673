import IndexedLoop.Proofs.Gaps
import IndexedLoop.Proofs.RoundTrip.Calm
import IndexedLoop.Proofs.RoundTrip.Canonical

/-!
# Clean texts

Nothing is missing in the text of a canonical tree, and it holds no null character, which no source may hold
(`clean_renderStmts`).
-/

namespace IndexedLoop

open Lexical

/-- Nothing is missing in the text, and it holds no null character. -/
structure Rendered.Clean (r : Rendered) : Prop where
  faults : r.faults = []
  null : '\x00' ∉ r.text.toList

namespace Rendered

@[simp]
theorem clean_ofText (text : String) : (ofText text).Clean ↔ '\x00' ∉ text.toList :=
  ⟨Clean.null, fun h => ⟨rfl, h⟩⟩

@[simp]
theorem clean_append (a b : Rendered) : (a ++ b).Clean ↔ a.Clean ∧ b.Clean := by
  have text : (a ++ b).text.toList = a.text.toList ++ b.text.toList := String.toList_append ..
  constructor
  · rintro ⟨faults, null⟩
    rw [faults_append, List.append_eq_nil_iff] at faults
    rw [text, List.mem_append, not_or] at null
    exact ⟨⟨faults.1, null.1⟩, faults.2, null.2⟩
  · rintro ⟨ha, hb⟩
    refine ⟨by rw [faults_append, ha.faults, hb.faults]; rfl, ?_⟩
    rw [text, List.mem_append, not_or]
    exact ⟨ha.null, hb.null⟩

@[simp]
theorem clean_wrapIf (condition : Bool) (r : Rendered) : (wrapIf condition r).Clean ↔ r.Clean := by
  cases condition <;> simp [wrapIf]

theorem clean_join {rs : List Rendered} (h : ∀ r ∈ rs, r.Clean) : (join ", " rs).Clean := by
  fun_induction join ", " rs with
  | case1 => simp
  | case2 r => exact h r (by simp)
  | case3 r rest _ ih => simp [h r (by simp), ih fun r' mem => h r' (by simp [mem])]

theorem clean_concat {rs : List Rendered} (h : ∀ r ∈ rs, r.Clean) : (concat rs).Clean := by
  induction rs with
  | nil => simp [concat]
  | cons r rest ih => simp [concat, h r (by simp), ih fun r' mem => h r' (by simp [mem])]

end Rendered

/-! ## Tokens -/

theorem Lexical.IsName.clean {cs : List Char} (h : IsName cs) : '\x00' ∉ cs := by
  intro mem
  rcases h.text.chars _ mem with word | sign
  · exact absurd word (by decide)
  · exact absurd sign (by decide)

theorem isHexDigit_clean {ds : List Char} (h : ∀ d ∈ ds, isHexDigit d = true) : '\x00' ∉ ds :=
  fun mem => absurd (h _ mem) (by decide)

theorem Lexical.StringBody.clean {cs : List Char} (h : StringBody cs) : '\x00' ∉ cs := by
  induction h with
  | nil => simp
  | char _ null _ ih => simp [null.symm, ih]
  | escape _ null _ ih => simp [null.symm, ih]
  | lineEnd _ ih => simp [ih]
  | @hex a b _ ha hb _ ih =>
    have digits : '\x00' ∉ [a, b] := isHexDigit_clean (by simp [ha, hb])
    simp only [List.mem_cons, List.not_mem_nil, or_false, not_or] at digits
    simp [digits, ih]
  | code _ hex _ ih => simp [isHexDigit_clean hex, ih]
  | braced _ hex _ ih => simp [isHexDigit_clean hex, ih]

theorem Lexical.ClassBody.clean {cs : List Char} (h : ClassBody cs) : '\x00' ∉ cs := by
  induction h with
  | nil => simp
  | char _ null _ ih => simp [null.symm, ih]
  | escape _ null _ ih => simp [null.symm, ih]

theorem Lexical.RegexBody.clean {cs : List Char} (h : RegexBody cs) : '\x00' ∉ cs := by
  induction h with
  | nil => simp
  | char _ null _ ih => simp [null.symm, ih]
  | escape _ null _ ih => simp [null.symm, ih]
  | oneOf body _ ih => simp [body.clean, ih]

theorem IsRegex.clean {cs : List Char} (h : IsRegex cs) : '\x00' ∉ cs := by
  obtain ⟨c, body, flags, rfl, regex, -, letters⟩ := h
  have flag : '\x00' ∉ flags := fun mem => absurd (letters _ mem) (by decide)
  have inside := regex.clean
  simp only [List.mem_cons, List.mem_append, not_or] at inside ⊢
  exact ⟨by decide, inside.1, inside.2, by decide, flag⟩

theorem NumberLiteral.Parts.clean (p : NumberLiteral.Parts) : '\x00' ∉ p.text := by
  have digits {ds : List Char} (h : ∀ c ∈ ds, c.isDigit = true) : '\x00' ∉ ds :=
    fun mem => absurd (h _ mem) (by decide)
  rw [text, List.mem_append, not_or]
  refine ⟨digits p.whole_digits, ?_⟩
  split
  · simp
  · simp [digits p.fraction_digits]

theorem Constant.IsKey.clean {span : Span} {value : Constant} (h : value.IsKey) :
    (Literal.render ⟨span, value⟩).Clean := by
  cases value with
  | string raw => simp [Literal.render, toString, StringBody.clean h]
  | number value =>
    obtain ⟨p, text, -⟩ := NumberLiteral.format_parts h.1 h.2
    simp [Literal.render, text, p.clean]
  | _ => exact h.elim

theorem Constant.Canonical.clean {span : Span} {value : Constant} (h : value.Canonical) :
    (Literal.render ⟨span, value⟩).Clean := by
  cases value with
  | boolean value => cases value <;> simp [Literal.render]
  | null => simp [Literal.render]
  | regExp raw => simp [Literal.render, IsRegex.clean h]
  | string raw => exact Constant.IsKey.clean h
  | number value => exact Constant.IsKey.clean h
  | other kind raw => exact h.elim

theorem operators_clean : (∀ op : BinaryOp, '\x00' ∉ op.token.toList) ∧ (∀ op : AssignOp, '\x00' ∉ op.token.toList) ∧
    (∀ op : UnaryOp, '\x00' ∉ op.token.toList) ∧ (∀ op : UpdateOp, '\x00' ∉ op.token.toList) ∧
    ∀ kind : DeclKind, '\x00' ∉ kind.token.toList := by
  refine ⟨?_, ?_, ?_, ?_, ?_⟩ <;> rintro ⟨⟩ <;> decide

theorem Expr.IsProperty.clean {e : Expr} (h : e.IsProperty) : e.render.Clean := by
  cases e with
  | identifier id => simpa [Expr.render] using IsName.clean h
  | _ => exact h.elim

theorem Expr.IsKey.clean {e : Expr} (h : e.IsKey) : e.render.Clean := by
  cases e with
  | identifier id => simpa [Expr.render] using IsName.clean h
  | literal lit => exact Constant.IsKey.clean h
  | _ => exact h.elim

theorem Expr.IsParam.clean {e : Expr} (h : e.IsParam) : e.render.Clean := by
  cases e with
  | identifier id => simpa [Expr.render] using IsName.clean h.1.1
  | _ => exact h.elim

theorem clean_functionHead {name : String} (h : '\x00' ∉ name.toList) {params : List Expr}
    (isParam : ∀ p ∈ params, p.IsParam) : (functionHead name (renderListed params)).Clean := by
  have list : ∀ r ∈ renderListed params, r.Clean := by
    induction params with
    | nil => simp [renderListed]
    | cons p rest ih =>
      simp only [renderListed, List.forall_mem_cons, Rendered.clean_wrapIf]
      exact ⟨(isParam p (by simp)).clean, ih fun q mem => isParam q (by simp [mem])⟩
  simp [functionHead, toString, Rendered.clean_join list, h]

/-! ## Trees -/

variable {rule : TargetRule}

mutual

theorem Expr.clean_render : (e : Expr) → e.Canonical rule → e.render.Clean
  | .assignment _ op left right, h => by
    simp [Expr.render, toString, left.clean_render h.2.2.1, right.clean_render h.2.2.2, operators_clean.2.1 op]
  | .binary _ op left right, h => by
    simp [Expr.render, toString, left.clean_render h.1, right.clean_render h.2, operators_clean.1 op]
  | .unary _ op argument, h => by
    simp [Expr.render, toString, argument.clean_render h, operators_clean.2.2.1 op]
  | .sequence _ expressions, h => by
    rw [Expr.render]
    exact Rendered.clean_join (clean_renderExprs expressions h.2.2)
  | .update _ op leading argument, h => by
    cases leading <;> simp [Expr.render, argument.clean_render h.2, operators_clean.2.2.2.1 op]
  | .function ⟨_, id, params, body⟩, h => by
    have name : '\x00' ∉ ((id.map Identifier.name).getD "").toList := by
      cases id with
      | none => simp
      | some id => exact (h.1 id rfl).1.1.clean
    simp [Expr.render, clean_functionHead name h.2.1, body.clean_render h.2.2]
  | .call _ callee arguments, h => by
    simp [Expr.render, callee.clean_render h.1, Rendered.clean_join (clean_renderListed arguments h.2)]
  | .new _ callee arguments, h => by
    simp [Expr.render, callee.clean_render h.1, Rendered.clean_join (clean_renderListed arguments h.2)]
  | .conditional _ test consequent alternate, h => by
    simp [Expr.render, test.clean_render h.1, consequent.clean_render h.2.1, alternate.clean_render h.2.2]
  | .member _ object property .dot, h => by
    have property := Expr.IsProperty.clean h.2
    simp [Expr.render, object.clean_render h.1, property]
  | .member _ object property .bracket, h => by
    simp [Expr.render, object.clean_render h.1, property.clean_render h.2]
  | .member _ _ _ (.other _), h => h.2.elim
  | .object _ properties, h => by
    simp [Expr.render, Rendered.clean_join (clean_renderProperties properties h)]
  | .array _ elements, h => by
    have trailing : '\x00' ∉ (if elements.getLast?.any Option.isNone = true then "," else "").toList := by
      split <;> simp
    simp [Expr.render, Rendered.clean_join (clean_renderElements elements h), trailing]
  | .this _, _ => by simp [Expr.render]
  | .identifier id, h => by simpa [Expr.render] using h.1.clean
  | .literal _, h => Constant.Canonical.clean h
  | .unknown _, h => h.elim

theorem clean_renderExprs : (es : List Expr) → canonicalExprs rule es → ∀ r ∈ renderExprs es, r.Clean
  | [], _ => by simp [renderExprs]
  | e :: rest, h => by
    simpa [renderExprs, e.clean_render h.1] using clean_renderExprs rest h.2

theorem clean_renderListed : (es : List Expr) → canonicalExprs rule es → ∀ r ∈ renderListed es, r.Clean
  | [], _ => by simp [renderListed]
  | e :: rest, h => by
    simpa [renderListed, e.clean_render h.1] using clean_renderListed rest h.2

theorem clean_renderElements : (es : List (Option Expr)) → canonicalElements rule es →
    ∀ r ∈ renderElements es, r.Clean
  | [], _ => by simp [renderElements]
  | none :: rest, h => by simpa [renderElements] using clean_renderElements rest h
  | some e :: rest, h => by
    simpa [renderElements, e.clean_render h.1] using clean_renderElements rest h.2

theorem clean_renderProperties : (ps : List Property) → canonicalProperties rule ps →
    ∀ r ∈ renderProperties ps, r.Clean
  | [], _ => by simp [renderProperties]
  | ⟨_, key, value⟩ :: rest, h => by
    have key_clean := Expr.IsKey.clean h.1
    simpa [renderProperties, key_clean, value.clean_render h.2.1] using clean_renderProperties rest h.2.2

theorem Block.clean_render : (b : Block) → b.Canonical rule → b.render.Clean
  | ⟨_, body⟩, h => by simp [Block.render, Rendered.clean_concat (clean_renderStmts body h)]

theorem clean_renderStmts : (ss : List Stmt) → canonicalStmts rule ss → ∀ r ∈ renderStmts ss, r.Clean
  | [], _ => by simp [renderStmts]
  | s :: rest, h => by
    simpa [renderStmts, s.clean_render h.1] using clean_renderStmts rest h.2

theorem Declaration.clean_render : (d : Declaration) → d.Canonical rule → d.render.Clean
  | ⟨_, kind, declarators⟩, h => by
    simp [Declaration.render, toString, Rendered.clean_join (clean_renderDeclarators declarators h.2),
      operators_clean.2.2.2.2 kind]

theorem clean_renderDeclarators : (ds : List Declarator) → canonicalDeclarators rule ds →
    ∀ r ∈ renderDeclarators ds, r.Clean
  | [], _ => by simp [renderDeclarators]
  | ⟨_, id, none⟩ :: rest, h => by
    simpa [renderDeclarators, h.1.1.1.clean] using clean_renderDeclarators rest h.2.2
  | ⟨_, id, some init⟩ :: rest, h => by
    simpa [renderDeclarators, toString, h.1.1.1.clean, init.clean_render h.2.1] using clean_renderDeclarators rest h.2.2

theorem clean_renderOption : (e : Option Expr) → canonicalOption rule e → (renderOption e).Clean
  | none, _ => by simp [renderOption]
  | some e, h => by simpa [renderOption] using e.clean_render h

theorem clean_renderForInit : (init : Option ForInit) → canonicalForInit rule init → (renderForInit init).Clean
  | none, _ => by simp [renderForInit]
  | some (.declaration decl), h => by simpa [renderForInit] using decl.clean_render h
  | some (.expression e), h => by simpa [renderForInit] using e.clean_render h

theorem Stmt.clean_render : (s : Stmt) → s.Canonical rule → s.render.Clean
  | .declaration decl, h => by simp [Stmt.render, decl.clean_render h]
  | .functionDecl ⟨_, id, params, body⟩, h => by
    simp [Stmt.render, clean_functionHead h.1.1.1.clean h.2.1, body.clean_render h.2.2]
  | .block b, h => by simpa [Stmt.render] using b.clean_render h
  | .ret _ argument, h => by simp [Stmt.render, clean_renderOption argument h]
  | .forLoop ⟨_, init, test, update, body⟩, h => by
    simp [Stmt.render, clean_renderForInit init h.1, clean_renderOption test h.2.1, clean_renderOption update h.2.2.1,
      body.clean_render h.2.2.2]
  | .whileLoop ⟨_, test, body⟩, h => by simp [Stmt.render, test.clean_render h.1, body.clean_render h.2]
  | .ifElse ⟨_, test, consequent, none⟩, h => by
    have empty : (Rendered.ofText "").text.isEmpty = true := rfl
    simp [Stmt.render, ifElseText, empty, test.clean_render h.1, consequent.clean_render h.2]
  | .ifElse ⟨_, test, consequent, some alternate⟩, h => by
    rw [Stmt.render, ifElseText]
    split
    · simp [test.clean_render h.1, consequent.clean_render h.2.1, alternate.clean_render h.2.2.2]
    · simp [h.2.2.1, test.clean_render h.1, consequent.clean_render h.2.1, alternate.clean_render h.2.2.2]
  | .throw _ argument, h => by simp [Stmt.render, argument.clean_render h]
  | .expression _ expr, h => by simp [Stmt.render, expressionText, expr.clean_render h]
  | .brk _, _ | .cont _, _ | .empty _, _ => by simp [Stmt.render]
  | .unknown _, h => h.elim

end

end IndexedLoop
