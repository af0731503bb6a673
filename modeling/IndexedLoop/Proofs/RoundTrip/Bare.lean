import IndexedLoop.Printer
import IndexedLoop.Proofs.Spans
import Mathlib.Logic.Basic

/-!
# Texts do not depend on spans

The spans of a tree tell where something is missing in its text, but are no part of the text
(`text_bareStmts`).
-/

namespace IndexedLoop

namespace Rendered

@[simp]
theorem text_ofText (text : String) : (ofText text).text = text := rfl

@[simp]
theorem text_append (a b : Rendered) : (a ++ b).text = a.text ++ b.text := rfl

@[simp]
theorem text_wrapIf (condition : Bool) (r : Rendered) :
    (wrapIf condition r).text = if condition then "(" ++ r.text ++ ")" else r.text := by
  cases condition <;> simp [wrapIf]

/-- The texts of a list, all that counts for the text of the whole. -/
def texts (rs : List Rendered) : List String := rs.map text

theorem text_join {rs rs' : List Rendered} (h : texts rs = texts rs') : (join ", " rs).text = (join ", " rs').text := by
  induction rs generalizing rs' with
  | nil =>
    cases rs' with
    | nil => rfl
    | cons => cases h
  | cons r rest ih =>
    cases rs' with
    | nil => cases h
    | cons r' rest' =>
      obtain ⟨first, more⟩ := List.cons.inj h
      have inner := ih more
      cases rest with
      | nil =>
        cases rest' with
        | nil => exact first
        | cons => cases more
      | cons next rest =>
        cases rest' with
        | nil => cases more
        | cons next' rest' => simp only [join, text_append, text_ofText, first, inner]

theorem text_concat {rs rs' : List Rendered} (h : texts rs = texts rs') : (concat rs).text = (concat rs').text := by
  induction rs generalizing rs' with
  | nil =>
    cases rs' with
    | nil => rfl
    | cons => cases h
  | cons r rest ih =>
    cases rs' with
    | nil => cases h
    | cons r' rest' =>
      obtain ⟨first, more⟩ := List.cons.inj h
      simp only [concat, text_append, first, ih more]

end Rendered

open Rendered (texts)

theorem text_functionHead {name : String} {params params' : List Rendered} (h : texts params = texts params') :
    (functionHead name params).text = (functionHead name params').text := by
  simp only [functionHead, Rendered.text_append, Rendered.text_join h]

theorem text_ifElseText {test consequent alternate test' consequent' alternate' : Rendered} (openIf : Bool)
    (ht : test.text = test'.text) (hc : consequent.text = consequent'.text) (ha : alternate.text = alternate'.text) :
    (ifElseText test consequent alternate openIf).text = (ifElseText test' consequent' alternate' openIf).text := by
  unfold ifElseText
  rw [ha]
  split
  · simp only [Rendered.text_append, ht, hc, ha]
  · split <;> simp only [Rendered.text_append, ht, hc, ha]

/-! ## Forms -/

namespace Expr

@[simp]
theorem isSequence_bare (e : Expr) : e.bare.isSequence = e.isSequence := by
  cases e <;> rfl

@[simp]
theorem isLoose_bare (e : Expr) : e.bare.isLoose = e.isLoose := by
  cases e <;> rfl

@[simp]
theorem isAmbiguous_bare (e : Expr) : e.bare.isAmbiguous = e.isAmbiguous := by
  cases e with
  | literal lit =>
    obtain ⟨span, value⟩ := lit
    cases value <;> rfl
  | _ => rfl

@[simp]
theorem isSigned_bare (e : Expr) : e.bare.isSigned = e.isSigned := by
  cases e with
  | literal lit =>
    obtain ⟨span, value⟩ := lit
    cases value <;> rfl
  | _ => rfl

@[simp]
theorem isPlainCallee_bare : (e : Expr) → e.bare.isPlainCallee = e.isPlainCallee
  | .member _ target _ _ => by simpa only [bare, isPlainCallee] using target.isPlainCallee_bare
  | .identifier _ | .this _ | .assignment .. | .binary .. | .unary .. | .sequence .. | .update .. | .function _
  | .call .. | .new .. | .conditional .. | .object .. | .array .. | .literal _ | .unknown _ => rfl

end Expr

@[simp]
theorem Stmt.endsInOpenIf_bare : (s : Stmt) → s.bare.endsInOpenIf = s.endsInOpenIf
  | .ifElse ⟨_, _, _, none⟩ => rfl
  | .ifElse ⟨_, _, _, some alternate⟩ => by simpa only [bare, endsInOpenIf] using alternate.endsInOpenIf_bare
  | .forLoop ⟨_, _, _, _, body⟩ => by simpa only [bare, endsInOpenIf] using body.endsInOpenIf_bare
  | .whileLoop ⟨_, _, body⟩ => by simpa only [bare, endsInOpenIf] using body.endsInOpenIf_bare
  | .declaration _ | .functionDecl ⟨_, _, _, _⟩ | .block _ | .ret .. | .brk _ | .cont _ | .throw .. | .empty _ | .expression ..
  | .unknown _ => rfl

theorem getLast?_bareElements (es : List (Option Expr)) :
    (bareElements es).getLast?.any Option.isNone = es.getLast?.any Option.isNone := by
  have map : bareElements es = es.map (Option.map Expr.bare) := by
    induction es with
    | nil => rfl
    | cons e rest ih => cases e <;> simp [bareElements, ih]
  rw [map, List.getLast?_map]
  cases es.getLast? with
  | none => rfl
  | some e => cases e <;> rfl

theorem Literal.text_bare (lit : Literal) : lit.bare.render.text = lit.render.text := by
  obtain ⟨span, value⟩ := lit
  cases value <;> rfl

/-! ## Trees -/

mutual

theorem Expr.text_bare : (e : Expr) → e.bare.render.text = e.render.text
  | .assignment _ _ left right | .binary _ _ left right => by
    simp [Expr.render, Expr.bare, left.text_bare, right.text_bare]
  | .unary _ _ argument => by simp [Expr.render, Expr.bare, argument.text_bare]
  | .sequence _ expressions => by
    simp only [Expr.render, Expr.bare, Rendered.text_join (texts_bareExprs expressions)]
  | .update _ _ leading argument => by cases leading <;> simp [Expr.render, Expr.bare, argument.text_bare]
  | .function ⟨_, id, params, body⟩ => by
    have name : ((id.map Identifier.bare).map Identifier.name) = id.map Identifier.name := by cases id <;> rfl
    simp only [Expr.render, Expr.bare, Function.bare, name, Rendered.text_append,
      text_functionHead (texts_bareListed params), body.text_bare]
  | .call _ callee arguments | .new _ callee arguments => by
    simp [Expr.render, Expr.bare, callee.text_bare, Rendered.text_join (texts_bareListed arguments)]
  | .conditional _ test consequent alternate => by
    simp [Expr.render, Expr.bare, test.text_bare, consequent.text_bare, alternate.text_bare]
  | .member _ object property .dot | .member _ object property .bracket => by
    simp [Expr.render, Expr.bare, object.text_bare, property.text_bare]
  | .member _ object _ (.other _) => rfl
  | .object _ properties => by
    simp [Expr.render, Expr.bare, Rendered.text_join (texts_bareProperties properties)]
  | .array _ elements => by
    simp [Expr.render, Expr.bare, Rendered.text_join (texts_bareElements elements), getLast?_bareElements]
  | .this _ | .identifier _ | .unknown _ => rfl
  | .literal lit => lit.text_bare

theorem texts_bareExprs : (es : List Expr) → texts (renderExprs (bareExprs es)) = texts (renderExprs es)
  | [] => rfl
  | e :: rest => congrArg₂ List.cons e.text_bare (texts_bareExprs rest)

theorem texts_bareListed : (es : List Expr) → texts (renderListed (bareExprs es)) = texts (renderListed es)
  | [] => rfl
  | e :: rest => by
    refine congrArg₂ List.cons ?_ (texts_bareListed rest)
    simp [e.text_bare]

theorem texts_bareElements : (es : List (Option Expr)) →
    texts (renderElements (bareElements es)) = texts (renderElements es)
  | [] => rfl
  | none :: rest => congrArg (List.cons "") (texts_bareElements rest)
  | some e :: rest => by
    refine congrArg₂ List.cons ?_ (texts_bareElements rest)
    simp [e.text_bare]

theorem texts_bareProperties : (ps : List Property) →
    texts (renderProperties (bareProperties ps)) = texts (renderProperties ps)
  | [] => rfl
  | ⟨_, key, value⟩ :: rest => by
    refine congrArg₂ List.cons ?_ (texts_bareProperties rest)
    simp [key.text_bare, value.text_bare]

theorem Block.text_bare : (b : Block) → b.bare.render.text = b.render.text
  | ⟨_, body⟩ => by simp [Block.render, Block.bare, Rendered.text_concat (texts_bareStmts body)]

theorem texts_bareStmts : (ss : List Stmt) → texts (renderStmts (bareStmts ss)) = texts (renderStmts ss)
  | [] => rfl
  | s :: rest => congrArg₂ List.cons s.text_bare (texts_bareStmts rest)

theorem Declaration.text_bare : (d : Declaration) → d.bare.render.text = d.render.text
  | ⟨_, _, declarators⟩ => by
    simp [Declaration.render, Declaration.bare, Rendered.text_join (texts_bareDeclarators declarators)]

theorem texts_bareDeclarators : (ds : List Declarator) →
    texts (renderDeclarators (bareDeclarators ds)) = texts (renderDeclarators ds)
  | [] => rfl
  | ⟨_, _, none⟩ :: rest => congrArg (List.cons _) (texts_bareDeclarators rest)
  | ⟨_, id, some init⟩ :: rest => by
    refine congrArg₂ List.cons ?_ (texts_bareDeclarators rest)
    simp [init.text_bare, Identifier.bare, Identifier.synthesized]

theorem text_bareOption : (e : Option Expr) → (renderOption (bareOption e)).text = (renderOption e).text
  | none => rfl
  | some e => e.text_bare

theorem text_bareForInit : (init : Option ForInit) → (renderForInit (bareForInit init)).text = (renderForInit init).text
  | none => rfl
  | some (.declaration decl) => decl.text_bare
  | some (.expression e) => e.text_bare

theorem Stmt.text_bare : (s : Stmt) → s.bare.render.text = s.render.text
  | .declaration decl => by simp [Stmt.render, Stmt.bare, decl.text_bare]
  | .functionDecl ⟨_, id, params, body⟩ => by
    have name : id.bare.name = id.name := rfl
    simp only [Stmt.render, Stmt.bare, name, Rendered.text_append, text_functionHead (texts_bareListed params),
      body.text_bare]
  | .block b => b.text_bare
  | .ret _ argument => by simp [Stmt.render, Stmt.bare, text_bareOption argument]
  | .forLoop ⟨_, init, test, update, body⟩ => by
    simp [Stmt.render, Stmt.bare, text_bareForInit init, text_bareOption test, text_bareOption update, body.text_bare]
  | .whileLoop ⟨_, test, body⟩ => by simp [Stmt.render, Stmt.bare, test.text_bare, body.text_bare]
  | .ifElse ⟨_, test, consequent, none⟩ => text_ifElseText false test.text_bare consequent.text_bare rfl
  | .ifElse ⟨_, test, consequent, some alternate⟩ => by
    rw [Stmt.bare, Stmt.render, Stmt.render, Stmt.endsInOpenIf_bare]
    exact text_ifElseText _ test.text_bare consequent.text_bare alternate.text_bare
  | .throw _ argument => by simp [Stmt.render, Stmt.bare, argument.text_bare]
  | .expression _ expr => by simp [Stmt.render, Stmt.bare, expressionText, expr.text_bare]
  | .brk _ | .cont _ | .empty _ | .unknown _ => rfl

end

/-- Programs that are equal up to spans have the same text. -/
theorem Program.text_eq_of_bare {p q : Program} (h : p.bare = q.bare) : p.render.text = q.render.text := by
  have body : bareStmts p.body = bareStmts q.body := congrArg Program.body h
  refine Rendered.text_concat ?_
  rw [← texts_bareStmts p.body, body, texts_bareStmts q.body]

end IndexedLoop
