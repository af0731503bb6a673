import IndexedLoop.Proofs.RoundTrip.Operand

/-!
# Primary expressions

The reader of primary expressions finds the first operand of an expression, from which the reader of what
follows goes on to the whole (`Heads`). A name, a literal, an array, a `new` and everything in parentheses
is an operand of its own.
-/

namespace IndexedLoop

open Lexical Parse Grammar

/-! ## First operands -/

/-- The operand `p` in front of `c` is where reading `e` in front of `t` starts: `p` goes on to what
stands for `e`, and is taken neither for the variable of a loop nor for the left side of an assignment. -/
structure Heads (g : Level) (k : Context) (r : Reach) (p : Surface.Expr) (c : Cursor) (e : Expr)
    (t : Tail) : Prop where
  call : ∀ x n args, p ≠ .call x n args
  equals : p.isTwofold = true → (c.facing .plain).lexeme.isPunct "=" = false
  loop : p.isTwofold = true → k.header = true →
    (c.facing .plain).lexeme.isWord "in" = false ∧ (c.facing .plain).lexeme.isWord "of" = false
  advances : ∃ s d, Advances g k r p c s d ∧ s.Stands e ∧ d.Meets t

namespace Mark

theorem eq_of_token_equals {m : Mark} (h : m.token = .punct "=") : m = .assign .assign := by
  have : ∀ m ∈ all, m.token = .punct "=" → m = .assign .assign := by decide
  exact this m m.mem_all h

theorem eq_of_token_in {m : Mark} (h : m.token = .word "in") : m = .binary .isIn := by
  have : ∀ m ∈ all, m.token = .word "in" → m = .binary .isIn := by decide
  exact this m m.mem_all h

/-- No mark is the word of a loop or an arrow. -/
theorem token_ne (m : Mark) : m.token ≠ .word "of" ∧ m.token ≠ .punct "=>" := by
  have : ∀ m ∈ all, m.token ≠ .word "of" ∧ m.token ≠ .punct "=>" := by decide
  exact this m m.mem_all

end Mark

/-- The marks that may stand behind an operand: an assignment only behind what can be assigned to. -/
structure Tail.Follows (t : Tail) (k : Context) (e : Expr) : Prop where
  suits : t.mark.Suits k
  place : ∀ op, t.mark = .assign op → e.IsPlace

/-- What stands for a name or a member is no pattern. -/
theorem Surface.Expr.Stands.isTwofold {p : Surface.Expr} {e : IndexedLoop.Expr} (h : p.Stands e)
    (place : e.IsPlace) : p.isTwofold = false := by
  have form := h.form
  cases e with
  | identifier id =>
    obtain ⟨x, rfl⟩ := form
    rfl
  | member span o q access =>
    cases p with
    | array => cases form
    | object => cases form
    | _ => rfl
  | _ => exact place.elim

namespace Heads

variable {g : Level} {k : Context} {r : Reach} {p : Surface.Expr} {c : Cursor} {e o : Expr} {t t' : Tail}

/-- What stands in front of a tail where no operand is complete. -/
theorem plain_token (meets : c.Meets t) {token : Token} (readable : token ≠ .unreadable)
    (other : t.mark.token ≠ token) : ((c.facing .plain).lexeme.token == token) = false := by
  rw [meets.plain, beq_eq_false_iff_ne]
  split
  · exact readable.symm
  · exact other

/-- An operand that stands for the whole expression. -/
theorem whole (stands : p.Stands e) (meets : c.Meets t) (follows : t.Follows k e)
    (call : ∀ x n args, p ≠ .call x n args) : Heads g k r p c e t where
  call := call
  equals twofold := by
    refine plain_token meets (by simp) fun token => ?_
    have place := follows.place _ (Mark.eq_of_token_equals token)
    exact Bool.false_ne_true ((stands.isTwofold place).symm.trans twofold)
  loop _ header :=
    ⟨plain_token meets (by simp) fun token => follows.suits.header header _ (Mark.eq_of_token_in token),
      plain_token meets (by simp) t.mark.token_ne.1⟩
  advances := ⟨p, c, .refl, stands, meets⟩

/-- An operand that goes on. -/
theorem step (h : Heads g k r p c o t')
    (next : ∀ s d, s.Stands o → d.Meets t' → ∃ s' d', Advances g k r s d s' d' ∧ s'.Stands e ∧ d'.Meets t) :
    Heads g k r p c e t where
  call := h.call
  equals := h.equals
  loop := h.loop
  advances := by
    obtain ⟨s, d, first, stands, meets⟩ := h.advances
    obtain ⟨s', d', second, stands', meets'⟩ := next s d stands meets
    exact ⟨s', d', first.trans second, stands', meets'⟩

end Heads

/-! ## Words -/

section

variable {g : Level} {k : Context} {r : Reach} {c : Cursor} {t : Tail}

theorem reads_wordExpr_name {l : Lexeme} {text : String} (h : text ∉ reservedWords)
    (arrow : (l.stop.facing k.target).lexeme.isPunct "=>" = false)
    {post : Surface.Expr → Cursor → Prop} (next : post (.name ⟨l.extent, text⟩) (l.stop.facing k.target)) :
    Reads (wordExpr g k l text) c post := by
  rw [wordExpr.eq_def]
  split
  case h_16 => simpa only [reads_bind, reads_accept, reads_pure] using next
  case h_17 =>
    simpa only [reads_bind, reads_accept, reads_tryPunct, arrow, Bool.false_eq_true, ↓reduceIte, reads_pure]
      using next
  all_goals exact absurd h (by decide)

theorem reads_primary_name {id : Identifier} (h : id.IsReference) (follows : t.Follows k (.identifier id))
    (starts : c.Starts (id.text ++ t.text)) :
    Reads (primary g k) c fun p d => Heads g k r p d (.identifier id) t := by
  rw [Cursor.Starts, View.of_identifier h.1 t.breaks] at starts
  have meets := (Cursor.Behind.of_target (starts.accept k.target)).meets follows.suits.brace
  simp only [primary, reads_bind, reads_look, starts.token]
  refine reads_wordExpr_name h.2 ?_ (.whole (.name _ id) meets follows (by simp))
  rw [meets.isPunct, beq_eq_false_iff_ne]
  exact t.mark.token_ne.2

theorem reads_primary_this {span : Span} (follows : t.Follows k (.this span))
    (starts : c.Starts (Symbol.ofString "this" ++ t.text)) :
    Reads (primary g k) c fun p d => Heads g k r p d (.this span) t := by
  rw [Cursor.Starts, View.of_keyword (by decide) t.breaks] at starts
  simp only [primary, reads_bind, reads_look, starts.token, wordExpr, reads_accept, reads_pure]
  have meets := (Cursor.Behind.of_operand (starts.accept k.operand)).meets follows.suits.brace
  exact .whole (.this _ span) meets follows (by simp)

/-! ## Literals -/

/-- A literal is an operand of its own. -/
theorem Heads.literal {l : Surface.Literal} {lit : Literal} (stands : l.Stands lit) (follows : t.Follows k (.literal lit))
    {d : Cursor} (behind : d.Behind k t) : Heads g k r (.literal l) d (.literal lit) t :=
  .whole (.literal stands) (behind.meets follows.suits.brace) follows (by simp)

/-- The flags of a regular expression are read. -/
theorem reads_regexFlags {flags : List Char} (h : ∀ flag ∈ flags, flag ∈ flagChars) {slot : Slot}
    (at_ : c.At slot (flags.map .char ++ t.text)) :
    Reads (rounds regexFlagsIn <|> pure ()) c fun _ d => d.At slot t.text := by
  have size := regexFlags_append h t.breaks
  rw [← at_.rest] at size
  cases flags with
  | nil =>
    refine Reads.right ?_ ((reads_pure _ _ _).mpr at_)
    have comment := t.comment_eq
    rw [← List.nil_append t.text, ← List.map_nil (f := Symbol.char), ← at_.rest] at comment
    show regexFlagsIn (.char ' ' :: c.rest) c = none
    simp only [regexFlagsIn, bind, StateT.bind, get, getThe, MonadStateOf.get, StateT.get, pure, size,
      List.length_nil, comment, Option.bind]
    cases (c.lexeme.token != .inserted) <;> rfl
  | cons flag flags =>
    refine Reads.left ?_ _
    simp only [reads_rounds, regexFlagsIn, reads_bind, reads_get, size, List.length_cons, reads_set]
    refine ⟨by rw [Cursor.slot_advance, at_.slot], ?_, by rw [Cursor.pending_advance, at_.pending]⟩
    rw [Cursor.rest_advance, at_.rest, ← List.length_cons (a := flag), ← List.length_map (f := Symbol.char),
      List.drop_left]

theorem reads_regex {cs : List Char} (h : IsRegex cs) {slot : Slot} {l : Lexeme}
    (start : l.start.rest = cs.map .char ++ t.text) (pending : l.start.pending = []) :
    Reads (regex l slot) c fun s d => (∃ x, s = .literal ⟨x, .regExp, cs.map .char⟩) ∧ d.At slot t.text := by
  obtain ⟨a, body, flags, rfl, regex, -, mem⟩ := h
  have text : l.start.rest =
      .char '/' :: ((a :: body).map Symbol.char ++ Symbol.char '/' :: (flags.map Symbol.char ++ t.text)) := by
    simp [start]
  have size := regex?_body regex (by simp) (comment?_flags mem t.breaks)
  rw [← text] at size
  have inside : ((l.start.advance ((a :: body).length + 2)).facing slot).At slot
      (flags.map .char ++ t.text) := by
    have front : l.start.rest = ('/' :: a :: (body ++ ['/'])).map .char ++ (flags.map .char ++ t.text) := by
      simp [start]
    have length : (a :: body).length + 2 = (('/' :: a :: (body ++ ['/'])).map Symbol.char).length := by simp
    refine ⟨rfl, ?_, by rw [Cursor.pending_facing, Cursor.pending_advance, pending]⟩
    rw [Cursor.rest_facing, Cursor.rest_advance, front, length, List.drop_left]
  simp only [Grammar.regex, size, reads_bind, reads_set]
  refine (reads_regexFlags mem inside).mono fun _ d at_ => ?_
  simp only [reads_get, reads_pure]
  refine ⟨⟨⟨l.start.place, d.place⟩, ?_⟩, at_⟩
  rw [at_.rest, start, List.length_append, Nat.add_sub_cancel, List.take_left]

theorem reads_primary_literal {lit : Literal} (h : lit.value.Canonical) (takes : (Expr.literal lit).Takes t.mark)
    (follows : t.Follows k (.literal lit)) (starts : c.Starts ((Expr.literal lit).text ++ t.text)) :
    Reads (primary g k) c fun p d => Heads g k r p d (.literal lit) t := by
  obtain ⟨span, value⟩ := lit
  cases value with
  | string raw =>
    rw [Expr.text_string, Cursor.Starts, View.of_string h] at starts
    simp only [primary, reads_bind, reads_look, starts.token, reads_accept, reads_pure]
    exact .literal (Surface.Literal.stands_string _ raw) follows (.of_operand (starts.accept k.operand))
  | number value =>
    obtain ⟨p, text, read⟩ := NumberLiteral.format_parts h.1 h.2
    have symbols : Symbol.ofString (numberStyle.format value) = p.text.map .char := by
      simp [text, Symbol.ofString]
    rw [Expr.text_number, symbols, Cursor.Starts,
      View.of_number t.breaks fun point => takes rfl (t.mark_eq_dot point)] at starts
    simp only [primary, reads_bind, reads_look, starts.token, reads_accept, reads_pure]
    exact .literal (Surface.Literal.stands_number _ text read) follows (.of_operand (starts.accept k.operand))
  | boolean value =>
    rw [Expr.text_boolean] at starts
    cases value with
    | true =>
      rw [if_pos rfl, Cursor.Starts, View.of_keyword (by decide) t.breaks] at starts
      simp only [primary, reads_bind, reads_look, starts.token, wordExpr, reads_accept, reads_pure]
      exact .literal (Surface.Literal.stands_boolean _ true _) follows (.of_operand (starts.accept k.operand))
    | false =>
      rw [if_neg (by decide), Cursor.Starts, View.of_keyword (by decide) t.breaks] at starts
      simp only [primary, reads_bind, reads_look, starts.token, wordExpr, reads_accept, reads_pure]
      exact .literal (Surface.Literal.stands_boolean _ false _) follows (.of_operand (starts.accept k.operand))
  | null =>
    rw [Expr.text_null, Cursor.Starts, View.of_keyword (by decide) t.breaks] at starts
    simp only [primary, reads_bind, reads_look, starts.token, wordExpr, reads_accept, reads_pure]
    exact .literal (Surface.Literal.stands_null _ _) follows (.of_operand (starts.accept k.operand))
  | regExp raw =>
    obtain ⟨a, rest, text, other⟩ := IsRegex.slash h t.text
    obtain ⟨p, stop, view, mem⟩ := View.of_slash other rest
    rw [Expr.text_regExp, text, Cursor.Starts, view] at starts
    have token := starts.token
    have run : Reads (regex c.lexeme k.operand) c fun p d => Heads g k r p d (.literal ⟨span, .regExp raw⟩) t := by
      refine (reads_regex h (starts.start.trans text.symm) ?_).mono ?_
      · rw [Cursor.pending_lexeme_start, starts.pending]
      · rintro s d ⟨⟨x, rfl⟩, at_⟩
        exact .literal (Surface.Literal.stands_regExp x raw) follows (.of_operand at_)
    simp only [primary, reads_bind, reads_look, token]
    simp only [List.mem_cons, List.not_mem_nil, or_false] at mem
    rcases mem with rfl | rfl
    · exact run
    · exact run
  | other kind raw => exact h.elim

/-! ## Brackets -/

/-- The look for another reading succeeds and moves nothing. -/
theorem reads_readsOtherwise {l : Lexeme} {e? : Option Surface.Expr} {post : Bool → Cursor → Prop}
    (h : ∀ b, post b c) : Reads (readsOtherwise g k l e?) c post := by
  simp only [readsOtherwise, reads_bind, reads_look]
  split
  · split
    · exact (reads_pure _ _ _).mpr (h _)
    · unfold Reads readsOn
      split
      · exact ⟨_, c, rfl, h _⟩
      · exact ⟨_, c, rfl, h _⟩
  · exact (reads_pure _ _ _).mpr (h _)

/-- A list in parentheses that is an expression is read with its parentheses. -/
theorem reads_primary_list {e : Expr} (suits : t.mark.Suits k) {inner : List Symbol}
    (starts : c.Starts (.char '(' :: inner))
    (list : ∀ d : Cursor, d.At .plain inner → Reads (entries g ")" .plain) d fun l d =>
      (∀ x, ∃ s, parens? x l = some (.parens x s) ∧ (Surface.Expr.parens x s).Stands e) ∧
        d.At .plain t.text) :
    Reads (primary g k) c fun p d => (∃ x s, p = .parens x s) ∧ p.Stands e ∧ d.Meets t := by
  have sees : c.Sees ⟨.punct "(", .char '(' :: inner, inner⟩ := by
    have := starts
    rwa [Cursor.Starts, ← Tail.text_called, Tail.view_of _ _ (by simp [Tail.called]) (fun _ => rfl)] at this
  simp only [primary, reads_bind, reads_look, sees.token, reads_accept, parens, reads_extentFrom]
  refine (list _ (sees.accept .plain)).mono ?_
  rintro l d ⟨value, at_⟩
  obtain ⟨s, eq, stands⟩ := value ⟨c.lexeme.start.place, d.place⟩
  have arrow : d.lexeme.isPunct "=>" = false := by
    rw [at_.sees.isPunct, t.view_plain, beq_eq_false_iff_ne]
    split
    · simp
    · exact t.mark.token_ne.2
  simp only [reads_face]
  refine reads_readsOtherwise fun b => ?_
  simp only [arrow, Bool.false_and, Bool.false_eq_true, ↓reduceIte, eq, reads_pure]
  exact ⟨⟨_, _, rfl⟩, stands, Cursor.Behind.meets (.of_target (at_.facing k.target)) suits.brace⟩

variable {rule : TargetRule} {n : Nat} (covers : g.Covers rule n)

include covers

theorem reads_parens {e : Expr} (h : e.Canonical rule) (compound : e.isCompound = true)
    (short : e.text.length < n) (suits : t.mark.Suits k) (starts : c.Starts (inParens e.text ++ t.text)) :
    Reads (primary g k) c fun p d => (∃ x s, p = .parens x s) ∧ p.Stands e ∧ d.Meets t := by
  have inner : inParens e.text ++ t.text = .char '(' ::
      (elementsText ((e.parts.1 :: e.parts.2).map some) ++ (Tail.closed .paren t.text).text) := by
    rw [← joined_listed, ← e.text_eq_joined h, Tail.text_paren]
    simp [inParens]
  rw [inner] at starts
  have canonical : canonicalExprs rule (e.parts.1 :: e.parts.2) := e.parts_canonical h
  refine reads_primary_list suits starts fun d at_ => ?_
  refine (reads_entries covers (.inl rfl) .plain (canonicalElements_some canonical) ?_ at_).mono ?_
  · intro x mem
    obtain ⟨p, part, rfl⟩ := List.mem_map.mp mem
    exact Nat.lt_of_le_of_lt (e.length_parts h part) short
  · rintro l d ⟨ss, stand, rfl, at_⟩
    obtain ⟨args, rfl, all⟩ := exists_allStand stand
    exact ⟨fun x => parens?_stands h compound all x, at_⟩

/-- What stands in parentheses is an operand of its own. -/
theorem reads_primary_parens {e : Expr} (h : e.Canonical rule) (compound : e.isCompound = true)
    (short : e.text.length < n) (follows : t.Follows k e) (starts : c.Starts (inParens e.text ++ t.text)) :
    Reads (primary g k) c fun p d => Heads g k r p d e t := by
  refine (reads_parens covers h compound short follows.suits starts).mono ?_
  rintro p d ⟨⟨x, s, rfl⟩, stands, meets⟩
  exact .whole stands meets follows (by simp)

theorem reads_primary_binary {span : Span} {op : BinaryOp} {left right : Expr}
    (h : (Expr.binary span op left right).Canonical rule) (short : (Expr.operation op left right).length < n)
    (follows : t.Follows k (.binary span op left right))
    (starts : c.Starts ((Expr.binary span op left right).text ++ t.text)) :
    Reads (primary g k) c fun p d => Heads g k r p d (.binary span op left right) t := by
  have inner : (Expr.binary span op left right).text ++ t.text =
      .char '(' :: (Expr.operation op left right ++ (Tail.closed .paren t.text).text) := by
    simp [Expr.text_binary, inParens, Tail.text_paren]
  rw [inner] at starts
  have list : Reads (primary g k) c fun p d =>
      (∃ x s, p = .parens x s) ∧ p.Stands (.binary span op left right) ∧ d.Meets t := by
    refine reads_primary_list follows.suits starts fun d at_ => ?_
    rw [entries, reads_rounds]
    refine (reads_entriesIn_last covers (.inl rfl) h (.operation span op left right) short at_.starts).mono ?_
    rintro l d ⟨s, stands, rfl, at_⟩
    exact ⟨fun x => parens?_stands h rfl (.cons stands .nil) x, at_⟩
  refine list.mono ?_
  rintro p d ⟨⟨x, s, rfl⟩, stands, meets⟩
  exact .whole stands meets follows (by simp)

theorem reads_primary_array {span : Span} {es : List (Option Expr)} (h : canonicalElements rule es)
    (short : (elementsText es).length < n) (follows : t.Follows k (.array span es))
    (starts : c.Starts ((Expr.array span es).text ++ t.text)) :
    Reads (primary g k) c fun p d => Heads g k r p d (.array span es) t := by
  have inner : (Expr.array span es).text ++ t.text =
      (Tail.indexed (elementsText es ++ (Tail.closed .bracket t.text).text)).text := by
    simp [Expr.text_array', Tail.text_indexed, Tail.text_bracket]
  rw [inner] at starts
  have sees := starts.tail (by simp [Tail.indexed])
  have token : c.lexeme.token = .punct "[" := sees.token
  simp only [primary, reads_bind, reads_look, token, reads_accept, arrayTail, reads_extentFrom, reads_pure]
  refine (reads_entries covers (.inr rfl) k.target h ?_ (sees.accept .plain)).mono ?_
  · exact fun e he => Nat.lt_of_le_of_lt (length_le_elementsText he) short
  · rintro l d ⟨ss, stand, rfl, at_⟩
    rw [withoutTrailing_entriesOf]
    exact .whole (.array stand) ((Cursor.Behind.of_target at_).meets follows.suits.brace) follows (by simp)

/-- What `new` applies to is read, and then its arguments. -/
theorem reads_primary_new {span : Span} {callee : Expr} {args : List Expr}
    (h : (Expr.new span callee args).Canonical rule)
    (short : (callee.textIf (!callee.isPlainCallee) ++ inParens (joined (args.map Expr.listed))).length < n)
    (follows : t.Follows k (.new span callee args))
    (starts : c.Starts ((Expr.new span callee args).text ++ t.text)) :
    Reads (primary g k) c fun p d => Heads g k r p d (.new span callee args) t := by
  let inner : Tail := .called (joined (args.map Expr.listed) ++ .char ')' :: t.text)
  have text : (Expr.new span callee args).text ++ t.text = Symbol.ofString "new" ++
      .char ' ' :: (callee.textIf (!callee.isPlainCallee) ++ inner.text) := by
    simp [inner, Expr.text_new, Tail.text_called, inParens]
  rw [text, Cursor.Starts, View.of_keyword (by decide) (by simp [Breaks, breakChars])] at starts
  have lead : Lead inner.mark (callee.textIf (!callee.isPlainCallee) ++ inner.text) :=
    Expr.lead_textIf fun _ => callee.lead h.1 inner fun _ => by simp [inner, Tail.called]
  have first := (starts.accept .plain).starts.of_space lead.calm
  have point : (c.lexeme.stop.facing .plain).lexeme.isPunct "." = false := by
    rw [Cursor.Sees.isPunct first, beq_eq_false_iff_ne]
    exact Token.ne_of_isLead lead.isLead (by decide)
  simp only [primary, reads_bind, reads_look, starts.token, wordExpr, reads_accept, newTail, reads_tryPunct,
    point, Bool.false_eq_true, ↓reduceIte]
  simp only [List.length_append] at short
  refine (covers.callee h.1 (by omega) rfl first).mono fun s d read => ?_
  have paren : d.lexeme.isPunct "(" = true := read.2.isPunct "("
  have inside : Cursor.At { d.lexeme.stop.facing .plain with gains := (d.lexeme.stop.facing .plain).gains + 1 } .plain
      (joined (args.map Expr.listed) ++ .char ')' :: t.text) :=
    ⟨rfl, (read.2.accept .plain).rest, (read.2.accept .plain).pending⟩
  have args_short : ∀ e ∈ args, e.listed.length < n := by
    intro e he
    have := length_le_joined (List.mem_map_of_mem (f := Expr.listed) he)
    simp only [inParens, List.length_cons, List.length_append] at short
    omega
  simp only [paren, ↓reduceIte, gain, reads_modify, reads_extentFrom, reads_pure]
  refine (reads_arguments covers h.2 args_short k.operand inside).mono fun ss d' list => ?_
  exact .whole (.new read.1 list.1) ((Cursor.Behind.of_operand list.2).meets follows.suits.brace) follows (by simp)

end

end IndexedLoop
