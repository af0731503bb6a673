import IndexedLoop.Proofs.DanglingElse
import IndexedLoop.Proofs.Operands.Expression

/-!
# Statements as sentences

Functions hold statements, so the text of an expression can hold any statement. In braces the text of a statement is a
`Sentence` if its expressions are legible. Together with the lemmas on expressions that gives, by induction on the
tree, that every expression that is spelled out is legible (`Expr.legible`).
-/

namespace IndexedLoop

open Lexical Scan

theorem row_option {e : Option Expr} (h : ∀ e' ∈ e, e'.Legible) : Row (optionText e) := by
  cases e with
  | none => exact .nil
  | some e => exact (h e rfl).row

/-! ## Declarations -/

section

variable {bs : List Bracket} {φ : Phase} {rest : List Symbol}

/-- The text of the variable can be read where a name may stand. -/
structure Declarator.Legible (d : Declarator) : Prop where
  id : d.id.Spelled
  init : ∀ e ∈ d.init, e.Legible

/-- Behind `let` a name stands where an operator could. -/
theorem Declarator.passage {d : Declarator} (h : d.Legible) (operand : φ ∈ [.statement, .operand, .operator])
    (follows : Follows false rest) : Passage 4 bs φ (d.text ++ rest) .operator rest := by
  have hid := h.id
  have hi := h.init
  obtain ⟨span, id, init⟩ := d
  cases init with
  | none => exact Passage.name hid.1 hid.2 follows.breaks operand
  | some init =>
    simp only [Declarator.text, List.cons_append, List.append_assoc]
    refine (Passage.name hid.1 hid.2 Passage.breaks_space operand).trans ?_
    exact ((Passage.assign .assign).trans ((hi init rfl).listed.onward follows)).mono (by omega)

theorem passage_declarators {ds : List Declarator} (h : ∀ d ∈ ds, d.Legible)
    (operand : φ ∈ [.statement, .operand, .operator]) (follows : Follows false rest) :
    ∃ ψ, Passage 4 bs φ (joined (ds.map Declarator.text) ++ rest) ψ rest := by
  induction ds generalizing φ with
  | nil => exact ⟨φ, .refl⟩
  | cons d ds ih =>
    simp only [List.mem_cons, forall_eq_or_imp] at h
    cases ds with
    | nil => exact ⟨.operator, d.passage h.1 operand follows⟩
    | cons d' ds =>
      obtain ⟨ψ, more⟩ := ih h.2 (φ := .operand) (by decide)
      refine ⟨ψ, ?_⟩
      simp only [List.map_cons, joined, List.append_assoc, List.cons_append]
      refine (d.passage h.1 operand (.of_mem (by decide) (by decide))).trans ?_
      exact Passage.comma.trans (Passage.space.trans more)

theorem Declaration.passage {d : Declaration} (h : ∀ v ∈ d.declarators, v.Legible) (starts : φ.starts = true)
    (follows : Follows false rest) : ∃ ψ, Passage 4 bs φ (d.text ++ rest) ψ rest := by
  obtain ⟨span, kind, ds⟩ := d
  have mem : kind.token ∈ keywords := by cases kind <;> decide
  have operand : φ.afterWord kind.token ∈ [.statement, .operand, .operator] := by
    cases kind <;> cases φ <;> first | decide | cases starts
  obtain ⟨ψ, names⟩ : ∃ ψ, Passage 4 bs (φ.afterWord kind.token) (joined (ds.map Declarator.text) ++ rest) ψ rest :=
    passage_declarators h operand follows
  refine ⟨ψ, ?_⟩
  simp only [Declaration.text, List.cons_append, List.append_assoc]
  exact (Passage.keyword mem Passage.breaks_space).trans (Passage.space.trans names)

end

/-! ## Statements -/

namespace Stmt

variable (span : Span)

/-- What ends a statement. -/
theorem passage_end {ψ φ : Phase} {bs : List Bracket} {rest : List Symbol} :
    Passage 4 (⟨"\x7d", ψ⟩ :: bs) φ (.char ';' :: .char '\n' :: rest) .statement rest :=
  Passage.semicolon.trans Passage.newline

theorem sentence_declaration {d : Declaration} (h : ∀ v ∈ d.declarators, v.Legible) :
    Sentence (declaration d).text := by
  intro ψ bs rest
  obtain ⟨χ, names⟩ : ∃ χ, Passage 4 (⟨"\x7d", ψ⟩ :: bs) .statement (d.text ++ .char ';' :: .char '\n' :: rest) χ
      (.char ';' :: .char '\n' :: rest) := Declaration.passage h rfl (.of_mem (by decide) (by decide))
  simp only [text_declaration, List.append_assoc, List.cons_append, List.nil_append]
  exact names.trans passage_end

theorem sentence_functionDecl {id : Identifier} (hid : id.IsProperty) {params : List Expr}
    (hp : ∀ e ∈ params, e.Legible) {body : Block} (hb : Sentence (stmtsText body.body)) :
    Sentence (functionDecl ⟨span, id, params, body⟩).text := by
  intro ψ bs rest
  have name : ∀ name ∈ some id, name.IsProperty := by
    rintro _ ⟨⟩
    exact hid
  simp only [text_functionDecl, List.append_assoc, List.cons_append, List.nil_append]
  exact ((Expr.passage_function true rfl name hp hb).mono (by decide)).trans Passage.newline

theorem sentence_block {b : Block} (hb : Sentence (stmtsText b.body)) : Sentence (block b).text := by
  intro ψ bs rest
  simp only [text_block, Block.text, List.append_assoc, List.cons_append, List.nil_append]
  exact hb.braces rfl

/-- A keyword and what it says something about. -/
theorem sentence_front {word : String} (mem : word ∈ ["return", "throw"]) {s : List Symbol} (h : Row s) :
    Sentence (Symbol.ofString word ++ .char ' ' :: (s ++ [Symbol.char ';', .char '\n'])) := by
  intro ψ bs rest
  have facts : ∀ word ∈ ["return", "throw"], word ∈ keywords ∧ Phase.statement.afterWord word = .operand := by decide
  obtain ⟨keyword, phase⟩ := facts word mem
  obtain ⟨χ, argument⟩ := h (⟨"\x7d", ψ⟩ :: bs) .operand (.char ';' :: .char '\n' :: rest) (starts_operand _)
    (.of_mem (by decide) (by decide))
  simp only [List.append_assoc, List.cons_append, List.nil_append]
  refine (Passage.keyword keyword Passage.breaks_space).trans (Passage.space.trans ?_)
  rw [phase]
  exact argument.trans passage_end

/-- A keyword that is a statement by itself. -/
theorem sentence_jump {word : String} (mem : word ∈ ["break", "continue"]) :
    Sentence (Symbol.ofString word ++ [Symbol.char ';', .char '\n']) := by
  intro ψ bs rest
  have facts : ∀ word ∈ ["break", "continue"], word ∈ keywords := by decide
  rw [List.append_assoc]
  exact (Passage.keyword (facts word mem) (Passage.breaks_of_mem (by decide))).trans passage_end

theorem sentence_empty : Sentence (empty span).text := by
  rw [text_empty]
  exact fun ψ bs rest => passage_end

theorem sentence_row {s : List Symbol} (h : Row s) (open_ : ¬ Fenced s) :
    Sentence (s ++ [Symbol.char ';', .char '\n']) := by
  intro ψ bs rest
  obtain ⟨χ, row⟩ := h (⟨"\x7d", ψ⟩ :: bs) .statement (.char ';' :: .char '\n' :: rest) ⟨rfl, fun _ => open_⟩
    (.of_mem (by decide) (by decide))
  rw [List.append_assoc]
  exact row.trans passage_end

theorem fenced_text {e : Expr} (h : Fenced e.text) : e.isFenced = true := by
  rw [Expr.isFenced_iff]
  simpa only [Fenced, Expr.text, Rendered.symbols, Symbol.ofString,
    List.prefix_map_iff_of_injective Symbol.char_injective] using h

theorem sentence_expression {e : Expr} (h : e.Legible) : Sentence (expression span e).text := by
  rw [text_expression]
  cases fenced : e.isFenced with
  | true =>
    refine sentence_row (h.row.inParens.row (by omega)) ?_
    rintro (function | brace)
    · exact absurd (List.cons_prefix_cons.mp function).1 (by decide)
    · exact absurd (List.cons_prefix_cons.mp brace).1 (by decide)
  | false => exact sentence_row h.row fun text => by rw [fenced_text text] at fenced; cases fenced

/-- The head of a branch or of a loop: what stands in its parentheses, in front of a statement. -/
theorem sentence_headed {word : String} (mem : word ∈ headWords) {s body : List Symbol}
    (h : ∀ bs rest, ∃ χ, Passage 4 (⟨")", .statement⟩ :: bs) .operand (s ++ .char ')' :: rest) χ (.char ')' :: rest))
    (hb : Sentence body) :
    Sentence (Symbol.ofString word ++ .char ' ' :: .char '(' :: (s ++ .char ')' :: body)) := by
  intro ψ bs rest
  have facts : ∀ word ∈ headWords, word ∈ keywords ∧ Phase.statement.afterWord word = .head := by decide
  obtain ⟨keyword, phase⟩ := facts word mem
  obtain ⟨χ, inside⟩ := h (⟨"\x7d", ψ⟩ :: bs) (body ++ rest)
  simp only [List.append_assoc, List.cons_append]
  refine (Passage.keyword keyword Passage.breaks_space).trans (Passage.space.trans ?_)
  rw [phase]
  exact (Passage.parens rfl (by omega) inside).trans (hb ψ bs rest)

theorem sentence_whileLoop {test : Expr} {body : Stmt} (ht : test.Legible) (hb : Sentence body.text) :
    Sentence (whileLoop ⟨span, test, body⟩).text := by
  rw [text_whileLoop]
  exact sentence_headed (by decide)
    (fun bs rest => ht.row _ _ _ (starts_operand _) (.of_mem (by decide) (by decide))) hb

theorem sentence_ifThen {test : Expr} {consequent : Stmt} (ht : test.Legible) (hc : Sentence consequent.text) :
    Sentence (ifElse ⟨span, test, consequent, none⟩).text := by
  rw [text_ifThen]
  exact sentence_headed (by decide)
    (fun bs rest => ht.row _ _ _ (starts_operand _) (.of_mem (by decide) (by decide))) hc

/-- The consequent in front of an `else`. -/
theorem sentence_consequent (braced : Bool) {consequent : Stmt} (h : Sentence consequent.text) :
    Sentence (Symbol.ofString (consequentText braced consequent)) := by
  cases braced with
  | false => exact h
  | true =>
    intro ψ bs rest
    simp only [consequentText, ↓reduceIte, Symbol.ofString_append, List.append_assoc]
    exact h.braces rfl

theorem sentence_ifElse {test : Expr} {consequent alternate : Stmt} (ht : test.Legible)
    (hc : Sentence consequent.text) (ha : Sentence alternate.text) (printed : alternate.isUnknown = false) :
    Sentence (ifElse ⟨span, test, consequent, some alternate⟩).text := by
  have filled : alternate.render.text ≠ "" := fun e => by
    rw [text_eq_empty_iff, printed] at e
    cases e
  have text : (ifElse ⟨span, test, consequent, some alternate⟩).text =
      Symbol.ofString "if" ++ .char ' ' :: .char '(' :: (test.text ++ .char ')' ::
        (Symbol.ofString (consequentText consequent.endsInOpenIf consequent) ++
          .char ' ' :: (Symbol.ofString "else" ++ .char ' ' :: alternate.text))) := by
    rw [Stmt.text, Rendered.symbols, text_ifElse_else span test consequent filled]
    simp only [Symbol.ofString_append, List.append_assoc]
    rfl
  have branch : Sentence (.char ' ' :: (Symbol.ofString "else" ++ .char ' ' :: alternate.text)) := by
    intro ψ bs rest
    simp only [List.append_assoc, List.cons_append]
    refine Passage.space.trans ((Passage.keyword (by decide) Passage.breaks_space).trans (Passage.space.trans ?_))
    exact ha ψ bs rest
  rw [text]
  exact sentence_headed (by decide)
    (fun bs rest => ht.row _ _ _ (starts_operand _) (.of_mem (by decide) (by decide)))
    ((sentence_consequent _ hc).append branch)

theorem sentence_forLoop {init : Option ForInit} {test update : Option Expr} {body : Stmt}
    (hi : Row (initText init)) (ht : Row (optionText test)) (hu : Row (optionText update)) (hb : Sentence body.text) :
    Sentence (forLoop ⟨span, init, test, update, body⟩).text := by
  have text : (forLoop ⟨span, init, test, update, body⟩).text =
      Symbol.ofString "for" ++ .char ' ' :: .char '(' :: ((initText init ++ .char ';' :: (optionText test ++
        .char ';' :: optionText update)) ++ .char ')' :: body.text) := by
    simp only [text_forLoop, List.append_assoc, List.cons_append]
  rw [text]
  refine sentence_headed (by decide) (fun bs rest => ?_) hb
  have divided : ∀ rest, Follows false (.char ';' :: rest) := fun rest => .of_mem (by decide) (by decide)
  obtain ⟨χ₁, first⟩ := hi (⟨")", .statement⟩ :: bs) .operand _ (starts_operand _) (divided
    (optionText test ++ .char ';' :: (optionText update ++ .char ')' :: rest)))
  obtain ⟨χ₂, second⟩ := ht (⟨")", .statement⟩ :: bs) .operand _ (starts_operand _) (divided
    (optionText update ++ .char ')' :: rest))
  obtain ⟨χ₃, third⟩ := hu (⟨")", .statement⟩ :: bs) .operand (.char ')' :: rest) (starts_operand _)
    (.of_mem (by decide) (by decide))
  refine ⟨χ₃, ?_⟩
  simp only [List.append_assoc, List.cons_append]
  exact first.trans (Passage.divider.trans (second.trans (Passage.divider.trans third)))

end Stmt

/-! ## All trees -/

mutual

/-- The text of every expression that is spelled out can be read. -/
theorem Expr.legible : (e : Expr) → e.Spelled → e.Legible
  | .assignment span op left right, h =>
    Expr.legible_assignment span op h.1 (left.legible h.2.1) (right.legible h.2.2)
  | .binary span op left right, h => Expr.legible_binary span op (left.legible h.1) (right.legible h.2)
  | .unary span op argument, h => Expr.legible_unary span op (argument.legible h)
  | .sequence span es, h => Expr.legible_sequence span (legible_exprs es h)
  | .update span op leading argument, h => Expr.legible_update span op leading (argument.legible h)
  | .function ⟨span, _, params, body⟩, h =>
    Expr.legible_function span h.1 (legible_exprs params h.2.1) (body.sentence h.2.2)
  | .call span callee args, h => Expr.legible_call span (callee.legible h.1) (legible_exprs args h.2)
  | .new span callee args, h => Expr.legible_new span (callee.legible h.1) (legible_exprs args h.2)
  | .conditional span test consequent alternate, h =>
    Expr.legible_conditional span (test.legible h.1) (consequent.legible h.2.1) (alternate.legible h.2.2)
  | .member span object (.identifier _) .dot, h => Expr.legible_dot span (object.legible h.1) h.2
  | .member span object property .bracket, h =>
    Expr.legible_bracket span (object.legible h.1) (property.legible h.2)
  | .object span ps, h => Expr.legible_object span (row_properties ps h)
  | .array span es, h => Expr.legible_array span (legible_elements es h)
  | .this span, _ => Expr.legible_this span
  | .identifier _, h => Expr.legible_identifier h
  | .literal _, h => Expr.legible_literal h

theorem legible_exprs : (es : List Expr) → spelledExprs es → ∀ e ∈ es, e.Legible
  | [], _ => by simp
  | e :: rest, h => by
    rw [List.forall_mem_cons]
    exact ⟨e.legible h.1, legible_exprs rest h.2⟩

theorem legible_elements : (es : List (Option Expr)) → spelledElements es → ∀ e, some e ∈ es → e.Legible
  | [], _ => by simp
  | none :: rest, h => by simpa using legible_elements rest h
  | some e :: rest, h => by
    simp only [List.mem_cons, Option.some.injEq, forall_eq_or_imp]
    exact ⟨e.legible h.1, legible_elements rest h.2⟩

theorem row_properties : (ps : List Property) → spelledProperties ps → ∀ p ∈ ps, Row p.text
  | [], _ => by simp
  | ⟨_, key, value⟩ :: rest, h => by
    rw [List.forall_mem_cons]
    exact ⟨Expr.row_property (h.1.imp_right key.legible) (value.legible h.2.1), row_properties rest h.2.2⟩

theorem Block.sentence : (b : Block) → b.Spelled → Sentence (stmtsText b.body)
  | ⟨_, body⟩, h => sentence_stmts body h

theorem sentence_stmts : (body : List Stmt) → spelledStmts body → Sentence (stmtsText body)
  | [], _ => .nil
  | s :: rest, h => by
    rw [stmtsText_cons]
    exact (s.sentence h.1).append (sentence_stmts rest h.2)

theorem legible_declarators : (ds : List Declarator) → spelledDeclarators ds → ∀ d ∈ ds, d.Legible
  | [], _ => by simp
  | ⟨_, _, init⟩ :: rest, h => by
    rw [List.forall_mem_cons]
    exact ⟨⟨h.1, legible_option init h.2.1⟩, legible_declarators rest h.2.2⟩

theorem legible_option : (e : Option Expr) → spelledOption e → ∀ e' ∈ e, e'.Legible
  | none, _ => by simp
  | some e, h => by
    rintro _ ⟨⟩
    exact e.legible h

theorem row_forInit : (init : Option ForInit) → spelledForInit init → Row (initText init)
  | none, _ => .nil
  | some (.declaration ⟨_, _, ds⟩), h => fun _ _ _ starts follows =>
    Declaration.passage (legible_declarators ds h) starts.operand follows
  | some (.expression e), h => (e.legible h).row

/-- The text of every statement that is spelled out can be read. -/
theorem Stmt.sentence : (s : Stmt) → s.Spelled → Sentence s.text
  | .declaration ⟨_, _, ds⟩, h => Stmt.sentence_declaration (legible_declarators ds h)
  | .functionDecl ⟨span, _, params, body⟩, h =>
    Stmt.sentence_functionDecl span h.1 (legible_exprs params h.2.1) (body.sentence h.2.2)
  | .block b, h => Stmt.sentence_block (b.sentence h)
  | .ret span argument, h => by
    rw [Stmt.text_ret]
    exact Stmt.sentence_front (by decide) (row_option (legible_option argument h))
  | .forLoop ⟨span, init, test, update, body⟩, h =>
    Stmt.sentence_forLoop span (row_forInit init h.1) (row_option (legible_option test h.2.1))
      (row_option (legible_option update h.2.2.1)) (body.sentence h.2.2.2)
  | .whileLoop ⟨span, test, body⟩, h => Stmt.sentence_whileLoop span (test.legible h.1) (body.sentence h.2)
  | .ifElse ⟨span, test, consequent, none⟩, h =>
    Stmt.sentence_ifThen span (test.legible h.1) (consequent.sentence h.2)
  | .ifElse ⟨span, test, consequent, some alternate⟩, h =>
    Stmt.sentence_ifElse span (test.legible h.1) (consequent.sentence h.2.1) (alternate.sentence h.2.2)
      (by cases alternate <;> first | rfl | exact h.2.2.elim)
  | .brk span, _ => by
    rw [Stmt.text_brk]
    exact Stmt.sentence_jump (by decide)
  | .cont span, _ => by
    rw [Stmt.text_cont]
    exact Stmt.sentence_jump (by decide)
  | .throw span argument, h => by
    rw [Stmt.text_throw]
    exact Stmt.sentence_front (by decide) (argument.legible h).row
  | .empty span, _ => Stmt.sentence_empty span
  | .expression span e, h => Stmt.sentence_expression span (e.legible h)

end

end IndexedLoop
