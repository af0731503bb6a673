import IndexedLoop.Proofs.Operands.Spelled

/-!
# Expressions as operands

An expression is `Legible` if its text is an operand, or a row if it is a sequence, and binds no more loosely than its
kind allows (`Expr.looseness`). For every kind of expression that holds if it holds of its parts. The four ways to
print a part are four kinds of operands: `Legible.listed`, `Legible.operand_textIf`, `Legible.target` and
`Legible.callee`.
-/

namespace IndexedLoop.Expr

open Lexical Scan

/-- How loosely the text of an expression binds at most, outside of its brackets. -/
def looseness : Expr → Nat
  | .sequence .. => 4
  | .assignment .. | .conditional .. | .function .. => 3
  | .unary .. | .update .. | .literal ⟨_, .number _⟩ => 2
  | e => if e.isPlainCallee then 0 else 1

/-- The text of the expression can be read where an operand may start. -/
structure Legible (e : Expr) : Prop where
  row : Row e.text
  operand : e.isSequence = false → Operand e.looseness (!e.isAmbiguous) e.text

/-! ## Looseness -/

theorem looseness_le_four (e : Expr) : e.looseness ≤ 4 := by
  unfold looseness
  split <;> first | omega | (split <;> omega)

theorem looseness_le_three {e : Expr} (h : e.isSequence = false) : e.looseness ≤ 3 := by
  unfold looseness
  split <;> first | omega | cases h | (split <;> omega)

theorem looseness_le_two {e : Expr} (h : e.isLoose = false) : e.looseness ≤ 2 := by
  unfold looseness
  split <;> first | omega | cases h | (split <;> omega)

theorem looseness_of_not_ambiguous {e : Expr} (h : e.isAmbiguous = false) :
    e.looseness = if e.isPlainCallee then 0 else 1 := by
  unfold looseness
  split <;> first | rfl | cases h

theorem isSequence_of_not_loose {e : Expr} (h : e.isLoose = false) : e.isSequence = false := by
  cases e <;> first | rfl | cases h

theorem isLoose_of_not_ambiguous {e : Expr} (h : e.isAmbiguous = false) : e.isLoose = false := by
  unfold isAmbiguous at h
  split at h <;> first | cases h | exact h

/-! ## Ways to print a part -/

theorem Legible.of_operand {e : Expr} (h : Operand e.looseness (!e.isAmbiguous) e.text) : e.Legible :=
  ⟨h.row e.looseness_le_four, fun _ => h⟩

namespace Legible

variable {e : Expr} (h : e.Legible)
include h

/-- In parentheses the text is an operand whatever it is, and without them if its kind allows it. -/
theorem textIf {b dotted : Bool} {w : Nat} (wrapped : b = true → 1 ≤ w) (single : b = false → e.isSequence = false)
    (light : b = false → e.looseness ≤ w) (point : b = false → dotted = true → e.isAmbiguous = false) :
    Operand w dotted (e.textIf b) := by
  cases b with
  | true => exact h.row.inParens.mono (wrapped rfl) fun _ => rfl
  | false => exact (h.operand (single rfl)).mono (light rfl) fun e => by rw [point rfl e]; rfl

/-- A member of a list. -/
theorem listed : Operand 3 false e.listed :=
  h.textIf (fun _ => by omega) id looseness_le_three fun _ e => by cases e

/-- An operand of an operator. -/
theorem operand_textIf {b : Bool} (loose : e.isLoose = true → b = true) : Operand 2 false (e.textIf b) := by
  have tight (e' : b = false) : e.isLoose = false := by
    cases h : e.isLoose with
    | false => rfl
    | true => rw [loose h] at e'; cases e'
  exact h.textIf (fun _ => by omega) (fun e' => isSequence_of_not_loose (tight e'))
    (fun e' => looseness_le_two (tight e')) fun _ e => by cases e

/-- What is called, or has a property. -/
theorem target : Operand (if e.isPlainCallee then 0 else 1) true (e.textIf e.isAmbiguous) := by
  refine h.textIf (fun wrapped => ?_) (fun e' => isSequence_of_not_loose (isLoose_of_not_ambiguous e'))
    (fun e' => (looseness_of_not_ambiguous e').le) fun e' _ => e'
  cases plain : e.isPlainCallee with
  | false => exact Nat.le_refl 1
  | true => rw [isAmbiguous_of_plainCallee plain] at wrapped; cases wrapped

/-- The callee of `new`. -/
theorem callee : Operand 1 true (e.textIf (!e.isPlainCallee)) := by
  have plain (e' : (!e.isPlainCallee) = false) : e.isAmbiguous = false :=
    isAmbiguous_of_plainCallee (by simpa using e')
  refine h.textIf (fun _ => Nat.le_refl 1)
    (fun e' => isSequence_of_not_loose (isLoose_of_not_ambiguous (plain e'))) (fun e' => ?_) fun e' _ => plain e'
  rw [looseness_of_not_ambiguous (plain e')]
  split <;> omega

end Legible

/-! ## Operators -/

variable (span : Span)

theorem legible_assignment (op : AssignOp) {left right : Expr} (place : left.IsPlace) (hl : left.Legible)
    (hr : right.Legible) : (assignment span op left right).Legible := by
  have loose : left.isLoose = false := by cases left <;> first | rfl | exact place.elim
  have target : Operand 3 false left.text := (hl.operand_textIf (b := false) (by simp [loose])).mono (by omega) id
  have text : Operand 3 false (assignment span op left right).text := by
    rw [text_assignment]
    refine target.append (fun _ => .of_mem (by decide) (by decide)) fun bs rest follows => ?_
    simp only [List.cons_append, List.append_assoc]
    exact (Passage.assign op).trans (hr.listed.onward follows)
  exact .of_operand text

theorem row_operation (op : BinaryOp) {left right : Expr} (hl : left.Legible) (hr : right.Legible) :
    Row (operation op left right) := by
  have first : Operand 3 false (left.textIf (left.isLoose || (op == .pow && left.isSigned))) :=
    (hl.operand_textIf fun loose => by rw [loose]; rfl).mono (by omega) id
  have last : Operand 3 false (right.textIf right.isLoose) := (hr.operand_textIf id).mono (by omega) id
  have whole : Operand 3 false (operation op left right) := by
    refine first.append (fun _ => .of_mem (by decide) (by decide)) fun bs rest follows => ?_
    simp only [List.cons_append, List.append_assoc]
    exact (Passage.binary op).trans (last.onward follows)
  exact whole.row (by omega)

theorem legible_binary (op : BinaryOp) {left right : Expr} (hl : left.Legible) (hr : right.Legible) :
    (binary span op left right).Legible := by
  have text : Operand 1 true (binary span op left right).text := by
    rw [text_binary]
    exact (row_operation op hl hr).inParens
  exact .of_operand text

theorem legible_unary (op : UnaryOp) {argument : Expr} (h : argument.Legible) :
    (unary span op argument).Legible := by
  have text : Operand 2 false (unary span op argument).text := by
    rw [text_unary]
    refine ⟨?_, fun bs φ rest starts follows => ?_⟩
    · cases op <;> exact ⟨_, _, rfl, by decide⟩
    · simp only [List.cons_append, List.append_assoc]
      exact (Passage.unary op starts.operand).trans ((h.operand_textIf id).onward follows)
  exact .of_operand text

theorem legible_update (op : UpdateOp) (leading : Bool) {argument : Expr} (h : argument.Legible) :
    (update span op leading argument).Legible := by
  have operand : Operand 2 false (argument.textIf argument.isLoose) := h.operand_textIf id
  have text : Operand 2 false (update span op leading argument).text := by
    cases leading with
    | true =>
      rw [text_updateLeading]
      refine ⟨?_, fun bs φ rest starts follows => ?_⟩
      · cases op <;> exact ⟨_, _, rfl, by decide⟩
      · rw [List.append_assoc]
        exact (Passage.updateLeading op starts.operand).trans (operand.onward follows)
    | false =>
      rw [text_update]
      refine operand.append (fun rest => ?_) fun bs rest _ => Passage.update op
      cases op <;> exact .of_mem (by decide) (by decide)
  exact .of_operand text

theorem legible_conditional {test consequent alternate : Expr} (ht : test.Legible) (hc : consequent.Legible)
    (ha : alternate.Legible) : (conditional span test consequent alternate).Legible := by
  have first : Operand 3 false (test.textIf test.isLoose) := (ht.operand_textIf id).mono (by omega) id
  have text : Operand 3 false (conditional span test consequent alternate).text := by
    rw [text_conditional]
    refine first.append (fun _ => .of_mem (by decide) (by decide)) fun bs rest follows => ?_
    simp only [List.cons_append, List.append_assoc]
    refine (Passage.ask hc.listed.lead).trans ?_
    refine (hc.listed.onward (.of_mem (by decide) (by decide))).trans ?_
    refine Passage.space.trans (Passage.colon.trans (Passage.space.trans ?_))
    exact ha.listed.onward follows
  exact .of_operand text

theorem legible_sequence {es : List Expr} (h : ∀ e ∈ es, e.Legible) : (sequence span es).Legible := by
  refine ⟨?_, fun e => by cases e⟩
  rw [text_sequence]
  refine Row.joined fun s mem => ?_
  obtain ⟨e, member, rfl⟩ := List.mem_map.mp mem
  exact (h e member).row

/-! ## Calls and members -/

/-- The members of a list. -/
theorem row_listed {es : List Expr} (h : ∀ e ∈ es, e.Legible) : Row (joined (es.map Expr.listed)) := by
  refine Row.joined fun s mem => ?_
  obtain ⟨e, member, rfl⟩ := List.mem_map.mp mem
  exact (h e member).listed.row (by omega)

theorem legible_call {callee : Expr} {args : List Expr} (hc : callee.Legible) (ha : ∀ e ∈ args, e.Legible) :
    (call span callee args).Legible := by
  have first : Operand 1 true (callee.textIf callee.isAmbiguous) := hc.target.mono (by split <;> omega) id
  have text : Operand 1 true (call span callee args).text := by
    rw [text_call]
    exact first.append (fun _ => .of_mem (by decide) (by decide)) fun bs rest _ => (row_listed ha).parens rfl
  exact .of_operand text

theorem legible_new {callee : Expr} {args : List Expr} (hc : callee.Legible) (ha : ∀ e ∈ args, e.Legible) :
    (new span callee args).Legible := by
  have text : Operand 1 true (new span callee args).text := by
    rw [text_new]
    refine ⟨⟨'n', _, rfl, by decide⟩, fun bs φ rest starts _ => ?_⟩
    have phase : φ.afterWord "new" = .operand := by
      have operand := starts.operand
      cases φ <;> first | rfl | cases operand
    simp only [List.cons_append, List.append_assoc]
    refine (Passage.keyword (by decide) Passage.breaks_space).trans (Passage.space.trans ?_)
    rw [phase]
    refine (hc.callee.onward (.of_mem (by decide) (by decide))).trans ?_
    exact (row_listed ha).parens rfl
  exact .of_operand text

theorem legible_dot {object : Expr} {id : Identifier} (ho : object.Legible) (hp : id.IsProperty) :
    (member span object (identifier id) .dot).Legible := by
  have text : Operand (if object.isPlainCallee then 0 else 1) true (member span object (identifier id) .dot).text := by
    rw [text_dot]
    exact ho.target.append (fun _ => .of_point) fun bs rest follows => Passage.property hp follows.breaks
  exact .of_operand text

theorem legible_bracket {object property : Expr} (ho : object.Legible) (hp : property.Legible) :
    (member span object property .bracket).Legible := by
  have text : Operand (if object.isPlainCallee then 0 else 1) true (member span object property .bracket).text := by
    rw [text_bracket]
    refine ho.target.append (fun _ => .of_mem (by decide) (by decide)) fun bs rest _ => ?_
    simp only [List.cons_append, List.append_assoc, List.nil_append]
    exact hp.row.brackets
  exact .of_operand text

/-! ## Objects and arrays -/

theorem row_key {key : Expr} (h : key.IsProperty ∨ key.Legible) : Row key.text := by
  rcases h with word | legible
  · cases key with
    | identifier id => exact fun bs φ rest _ follows =>
        ⟨φ.afterWord id.name, Passage.word word follows.breaks (Item.looseness_le_four _)⟩
    | _ => exact word.elim
  · exact legible.row

theorem row_property {p : Property} (hk : p.key.IsProperty ∨ p.key.Legible) (hv : p.value.Legible) :
    Row p.text := by
  intro bs φ rest starts follows
  have behind : Follows false (.char ':' :: .char ' ' :: (p.value.listed ++ rest)) := .of_mem (by decide) (by decide)
  obtain ⟨χ, key⟩ := row_key hk bs φ _ starts.of_append behind
  refine ⟨.operator, ?_⟩
  simp only [Property.text, List.cons_append, List.append_assoc]
  exact key.trans (Passage.colon.trans (Passage.space.trans ((hv.listed.onward follows).mono (by omega))))

theorem legible_object {ps : List Property} (h : ∀ p ∈ ps, Row p.text) : (object span ps).Legible := by
  have rows : Row (joined (ps.map Property.text)) := Row.joined fun s mem => by
    obtain ⟨p, member, rfl⟩ := List.mem_map.mp mem
    exact h p member
  have text : Operand 1 true (object span ps).text := by
    rw [text_object]
    refine ⟨⟨'\x7b', _, rfl, by decide⟩, fun bs φ rest starts _ => ?_⟩
    -- where a statement starts the brace would open a block
    obtain rfl := starts.eq_operand (.inr (List.prefix_append [_] _))
    obtain ⟨ψ, inside⟩ := rows (⟨"\x7d", .operator⟩ :: bs) .operand (.char '\x7d' :: rest) (starts_operand _)
      (.of_mem (by decide) (by decide))
    simp only [List.cons_append, List.append_assoc, List.nil_append]
    exact Passage.braces rfl inside
  exact .of_operand text

theorem legible_array {es : List (Option Expr)} (h : ∀ e, some e ∈ es → e.Legible) : (array span es).Legible := by
  have elements : Row (joined (es.map elementText)) := Row.joined fun s mem => by
    obtain ⟨e, member, rfl⟩ := List.mem_map.mp mem
    cases e with
    | none => exact .nil
    | some e => exact (h e member).listed.row (by omega)
  have row : Row (joined (es.map elementText) ++ if es.getLast?.any Option.isNone then [.char ','] else []) := by
    split
    · exact elements.comma
    · rwa [List.append_nil]
  have text : Operand 1 true (array span es).text := by
    rw [text_array]
    refine ⟨⟨'[', _, rfl, by decide⟩, fun bs φ rest _ _ => ?_⟩
    rw [List.cons_append, List.append_assoc, List.singleton_append]
    exact row.brackets
  exact .of_operand text

/-! ## Functions -/

/-- A function, from its keyword to its closing brace. -/
theorem passage_function {φ : Phase} (declares : Bool) {bs : List Bracket} {rest : List Symbol}
    (phase : φ.afterWord "function" = .heading declares) {id : Option Identifier} (hid : ∀ name ∈ id, name.IsProperty)
    {params : List Expr} (hp : ∀ e ∈ params, e.Legible) {body : Block} (hb : Sentence (stmtsText body.body)) :
    Passage 1 bs φ (headText (nameText id) params ++ (body.text ++ rest))
      (if declares then .statement else .operator) rest := by
  have name : Passage 1 bs (.heading declares)
      (nameText id ++ (inParens (joined (params.map listed)) ++ (body.text ++ rest))) (.heading declares)
      (inParens (joined (params.map listed)) ++ (body.text ++ rest)) := by
    cases id with
    | none => exact .refl
    | some id => exact Passage.functionName (hid id rfl) (Passage.breaks_of_mem (by decide))
  have block : Passage 1 bs (.body declares) (body.text ++ rest) (if declares then .statement else .operator) rest := by
    simp only [Block.text, List.cons_append, List.append_assoc, List.nil_append]
    exact hb.braces rfl
  simp only [headText, List.cons_append, List.append_assoc]
  refine (Passage.keyword (by decide) Passage.breaks_space).trans (Passage.space.trans ?_)
  rw [phase]
  exact name.trans (((row_listed hp).parens rfl).trans block)

theorem legible_function {id : Option Identifier} (hid : ∀ name ∈ id, name.IsProperty) {params : List Expr}
    (hp : ∀ e ∈ params, e.Legible) {body : Block} (hb : Sentence (stmtsText body.body)) :
    (function ⟨span, id, params, body⟩).Legible := by
  have text : Operand 3 false (function ⟨span, id, params, body⟩).text := by
    rw [text_function]
    refine ⟨⟨'f', _, rfl, by decide⟩, fun bs φ rest starts _ => ?_⟩
    obtain rfl := starts.eq_operand (.inl ⟨_, rfl⟩)
    rw [List.append_assoc]
    exact (passage_function false rfl hid hp hb).mono (by decide)
  exact .of_operand text

/-! ## Names and literals -/

theorem operand_name {name : String} (h : IsName name.toList) (other : name ∉ steeringWords) :
    Operand 0 true (Symbol.ofString name) := by
  obtain ⟨c, more, text, -, sign⟩ := h.opens
  have signs : ∀ c ∈ ['.', '?'], c ∈ signs := by decide
  refine ⟨⟨c, more.map .char, by simp [Symbol.ofString, text], fun mem => sign (signs c mem)⟩, ?_⟩
  exact fun bs φ rest starts follows => Passage.name h other follows.breaks starts.mem

theorem legible_identifier {id : Identifier} (h : id.Spelled) : (identifier id).Legible :=
  .of_operand (operand_name h.1 h.2 : Operand 0 true (identifier id).text)

theorem legible_this : (this span).Legible := by
  have text : Operand 0 true (this span).text := by
    rw [text_this]
    exact operand_name (.of_chars (by decide)) (by decide)
  exact .of_operand text

/-- A sign in front of a number. -/
theorem operand_minus {s : List Symbol} (h : Operand 2 false s)
    (lead : ∃ c more, s = .char c :: more ∧ c ∉ ['-', '=']) : Operand 2 false (.char '-' :: s) := by
  refine ⟨⟨'-', s, rfl, by decide⟩, fun bs φ rest starts follows => ?_⟩
  have number := h.passage bs .operand rest (starts_operand s) follows
  obtain ⟨c, more, rfl, other⟩ := lead
  exact (Passage.minus starts.operand other).trans number

/-- A magnitude starts with a digit. -/
theorem operand_parts (p : NumberLiteral.Parts) : Operand 2 false (p.text.map .char) ∧
    ∃ c more, p.text.map Symbol.char = .char c :: more ∧ c ∉ ['-', '='] := by
  obtain ⟨c, more, text, digit, -⟩ := p.exists_text_eq
  have other : ∀ c ∈ digitChars, c ∉ ['.', '?'] ∧ c ∉ ['-', '='] := by decide
  obtain ⟨point, sign⟩ := other c (mem_digitChars digit)
  have symbols : p.text.map Symbol.char = .char c :: more.map .char := by rw [text]; rfl
  refine ⟨⟨⟨c, more.map .char, symbols, point⟩, fun bs φ rest _ follows => ?_⟩, c, more.map .char, symbols, sign⟩
  exact Passage.number p follows.breaks (follows.point rfl)

theorem operand_number (value : Binary64) : Operand 2 false (Symbol.ofString (numberStyle.format value)) := by
  have word (name : String) (chars : (name.toList.all isWordChar && name.toList.head?.any fun c => !c.isDigit) = true)
      (other : name ∉ steeringWords) : Operand 2 false (Symbol.ofString name) :=
    (operand_name (.of_chars chars) other).mono (by omega) fun _ => rfl
  by_cases nan : value.isNaN = true
  · rw [NumberStyle.format, if_pos nan]
    exact word "NaN" (by decide) (by decide)
  rw [NumberStyle.format, if_neg nan]
  have magnitude : ∀ text, text = (if value.isInfinite then numberStyle.infinity else
      numberStyle.magnitudeText value.magnitude) → Operand 2 false (Symbol.ofString text) ∧
      ∃ c more, Symbol.ofString text = .char c :: more ∧ c ∉ ['-', '='] := by
    rintro text rfl
    split
    · exact ⟨word "Infinity" (by decide) (by decide), 'I', _, rfl, by decide⟩
    · obtain ⟨p, parts, -⟩ := NumberLiteral.magnitudeText_parts value.magnitude
      have symbols : Symbol.ofString (numberStyle.magnitudeText value.magnitude) = p.text.map .char := by
        rw [parts, Symbol.ofString, String.toList_ofList]
      rw [symbols]
      exact operand_parts p
  obtain ⟨operand, lead⟩ := magnitude _ rfl
  rw [Symbol.ofString_append]
  split
  · exact operand_minus operand lead
  · exact operand

theorem legible_literal {lit : Literal} (h : lit.value.Spelled) : (literal lit).Legible := by
  obtain ⟨span, value⟩ := lit
  cases value with
  | string raw =>
    have text : Operand 1 true (literal ⟨span, .string raw⟩).text := by
      rw [text_string]
      exact ⟨⟨'"', _, rfl, by decide⟩, fun bs φ rest _ _ => Passage.string h⟩
    exact .of_operand text
  | number value => exact .of_operand (operand_number value : Operand 2 false (literal ⟨span, .number value⟩).text)
  | boolean value =>
    have text : Operand 0 true (literal ⟨span, .boolean value⟩).text := by
      rw [text_boolean]
      cases value <;> exact operand_name (.of_chars (by decide)) (by decide)
    exact .of_operand (text.mono (by omega) id)
  | regExp raw =>
    have text : Operand 1 true (literal ⟨span, .regExp raw⟩).text := by
      rw [text_regExp]
      obtain ⟨c, more, slash, -⟩ := IsRegex.slash h []
      rw [List.append_nil] at slash
      refine ⟨⟨'/', .char c :: more, slash, by decide⟩, fun bs φ rest starts follows => ?_⟩
      exact Passage.regExp h starts.operand follows.breaks
    exact .of_operand text
  | null =>
    have text : Operand 0 true (literal ⟨span, .null⟩).text := by
      rw [text_null]
      exact operand_name (.of_chars (by decide)) (by decide)
    exact .of_operand (text.mono (by omega) id)
  | other kind raw => exact h.elim

end IndexedLoop.Expr
