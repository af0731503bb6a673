import IndexedLoop.Proofs.RoundTrip.Function
import IndexedLoop.Proofs.RoundTrip.Object

/-!
# Expressions

An operand is read from its first primary expression on (`reads_head`). From this follow the operands with
operators in front of them (`reads_unary`), whole expressions (`reads_expr`) and what `new` applies to
(`reads_callee`).
-/

namespace IndexedLoop

open Lexical Parse Grammar

/-! ## Operands -/

namespace Expr

/-- The expression goes on from its first primary expression. -/
def isOperand : Expr → Bool
  | .assignment .. | .unary .. | .sequence .. | .conditional .. | .unknown _ => false
  | .update _ _ leading _ => !leading
  | _ => true

theorem isCompound_of_isAmbiguous {e : Expr} (h : e.isAmbiguous = true) : e.isCompound = true := by
  cases e <;> simp_all [isAmbiguous, isLoose, isCompound]

theorem IsPlace.plain {e : Expr} (h : e.IsPlace) : e.isAmbiguous = false := by
  cases e <;> simp_all [IsPlace, isAmbiguous, isLoose]

theorem IsPlace.textIf {e : Expr} (h : e.IsPlace) : e.textIf e.isLoose = e.text := by
  have loose : e.isLoose = false := by cases e <;> simp_all [IsPlace, isLoose]
  rw [Expr.textIf, loose]
  rfl

theorem isOperand_of_plain {rule : TargetRule} {e : Expr} (h : e.Canonical rule) (plain : e.isAmbiguous = false) :
    e.isOperand = true := by
  cases e with
  | unknown => exact h.elim
  | _ => simp_all [isAmbiguous, isLoose, isOperand]

end Expr

/-- A postfix mark follows every operand. -/
theorem Tail.Follows.of_isPostfix {t : Tail} (h : t.mark.isPostfix = true) (k : Context) (e : Expr) :
    t.Follows k e := by
  refine ⟨.of_ne k ?_ ?_, ?_⟩
  · intro mark
    simp [mark, Mark.isPostfix] at h
  · intro op mark
    simp [mark, Mark.isPostfix] at h
  · intro op mark
    simp [mark, Mark.isPostfix] at h

/-- What stands for a plain callee has members. -/
theorem Reach.members_of_stands {r : Reach} {e : Expr} (reach : r.calls = true ∨ e.isPlainCallee = true)
    {s : Surface.Expr} (stands : s.Stands e) : r.members s = true := by
  rcases reach with calls | plain
  · simp [Reach.members, calls]
  · have form := stands.form
    cases e with
    | identifier id =>
      obtain ⟨x, rfl⟩ := form
      simp [Reach.members]
    | this span =>
      obtain ⟨x, rfl⟩ := form
      simp [Reach.members]
    | member span o p access =>
      cases s with
      | new => cases form
      | _ => simp [Reach.members]
    | _ => cases plain

section

variable {rule : TargetRule} {g : Level} {n : Nat} (covers : g.Covers rule n) {k : Context}

include covers

/-- What a member or a call belongs to is read, in parentheses if it needs them. -/
theorem reads_target {r : Reach} {o : Expr} (h : o.Canonical rule) (short : (o.textIf o.isAmbiguous).length ≤ n)
    {t : Tail} (mark : t.mark.isPostfix = true) {c : Cursor}
    (bare : o.isOperand = true → (∀ span op argument, o = .update span op false argument → r.updates = true) →
      o.text.length ≤ n → o.Takes t.mark → c.Starts (o.text ++ t.text) →
      Reads (primary g k) c fun p d => Heads g k r p d o t)
    (starts : c.Starts (o.textIf o.isAmbiguous ++ t.text)) :
    Reads (primary g k) c fun p d => Heads g k r p d o t := by
  cases ambiguous : o.isAmbiguous with
  | true =>
    rw [Expr.textIf, ambiguous, if_pos rfl] at starts short
    simp only [inParens, List.length_cons, List.length_append] at short
    exact reads_primary_parens covers h (Expr.isCompound_of_isAmbiguous ambiguous) (by omega) (.of_isPostfix mark k o)
      starts
  | false =>
    rw [Expr.textIf, ambiguous, if_neg (by decide)] at starts short
    refine bare (Expr.isOperand_of_plain h ambiguous) ?_ short ?_ starts
    · rintro _ _ _ rfl
      cases ambiguous
    · intro other
      rw [ambiguous] at other
      cases other

/-- The first primary expression of an operand is read, from which the operand follows. -/
theorem reads_head {r : Reach} : (e : Expr) → e.Canonical rule → e.isOperand = true →
    (r.calls = true ∨ e.isPlainCallee = true) →
    (∀ span op argument, e = .update span op false argument → r.updates = true) → e.text.length ≤ n → (t : Tail) →
    e.Takes t.mark → t.Follows k e → (c : Cursor) → c.Starts (e.text ++ t.text) →
    Reads (primary g k) c fun p d => Heads g k r p d e t
  | .identifier id, h, _, _, _, _, t, _, follows, c, starts => reads_primary_name h follows starts
  | .this span, _, _, _, _, _, t, _, follows, c, starts => reads_primary_this follows starts
  | .literal lit, h, _, _, _, _, t, takes, follows, c, starts => reads_primary_literal h takes follows starts
  | .binary span op left right, h, _, _, _, short, t, _, follows, c, starts => by
    rw [Expr.text_binary] at short
    simp only [inParens, List.length_cons, List.length_append] at short
    exact reads_primary_binary covers h (by omega) follows starts
  | .array span es, h, _, _, _, short, t, _, follows, c, starts => by
    rw [Expr.text_array'] at short
    simp only [List.length_cons, List.length_append] at short
    exact reads_primary_array covers h (by omega) follows starts
  | .object span ps, h, _, _, _, short, t, _, follows, c, starts => by
    rw [Expr.text_object] at short
    simp only [List.length_cons, List.length_append] at short
    refine (reads_primary_object covers h (by omega) follows.suits starts).mono ?_
    rintro p d ⟨stands, ⟨x, ms, rfl⟩, meets⟩
    exact .whole stands meets follows (by simp)
  | .function fn, h, _, _, _, short, t, _, follows, c, starts =>
    reads_primary_function covers h short follows starts
  | .new span callee args, h, _, _, _, short, t, _, follows, c, starts => by
    rw [Expr.text_new] at short
    simp only [List.length_cons, List.length_append] at short
    exact reads_primary_new covers h (by simp only [List.length_append]; omega) follows starts
  | .member span o p .dot, h, _, reach, _, short, t, _, follows, c, starts => by
    cases p with
    | identifier id =>
      have isName : IsName id.name.toList := h.2
      have reach : r.calls = true ∨ o.isPlainCallee = true := by simpa only [Expr.isPlainCallee] using reach
      have text : (Expr.member span o (.identifier id) .dot).text ++ t.text =
          o.textIf o.isAmbiguous ++ (Tail.dotted id isName t.text).text := by
        simp [Expr.text_dot, Tail.text_dotted]
      rw [text] at starts
      rw [Expr.text_dot] at short
      simp only [List.length_append, List.length_cons] at short
      refine (reads_target covers h.1 (by omega) rfl (fun operand update short takes starts =>
        reads_head o h.1 operand reach update short _ takes (.of_isPostfix rfl k o) c starts) starts).mono
          fun p d heads => heads.step fun s d' stands meets => ?_
      obtain ⟨s', d'', advances, ⟨x, y, rfl⟩, behind⟩ :=
        advances_dot (g := g) (k := k) meets (Reach.members_of_stands reach stands)
      exact ⟨_, d'', advances, stands.dot y id, behind.meets follows.suits.brace⟩
    | _ => exact h.2.elim
  | .member span o index .bracket, h, _, reach, _, short, t, _, follows, c, starts => by
    have reach : r.calls = true ∨ o.isPlainCallee = true := by simpa only [Expr.isPlainCallee] using reach
    have text : (Expr.member span o index .bracket).text ++ t.text =
        o.textIf o.isAmbiguous ++ (Tail.indexed (index.text ++ .char ']' :: t.text)).text := by
      simp [Expr.text_bracket, Tail.text_indexed]
    rw [text] at starts
    rw [Expr.text_bracket] at short
    simp only [List.length_append, List.length_cons] at short
    refine (reads_target covers h.1 (by omega) rfl (fun operand update short takes starts =>
      reads_head o h.1 operand reach update short _ takes (.of_isPostfix rfl k o) c starts) starts).mono
        fun p d heads => heads.step fun s d' stands meets => ?_
    obtain ⟨s', d'', advances, ⟨x, i, rfl, inner⟩, behind⟩ := advances_subscript covers h.2 (by omega) meets
      (Reach.members_of_stands reach stands) stands.isImport
    exact ⟨_, d'', advances, stands.subscript inner, behind.meets follows.suits.brace⟩
  | .call span callee args, h, _, reach, _, short, t, _, follows, c, starts => by
    have calls : r.calls = true := reach.resolve_right (by simp [Expr.isPlainCallee])
    have text : (Expr.call span callee args).text ++ t.text = callee.textIf callee.isAmbiguous ++
        (Tail.called (joined (args.map Expr.listed) ++ .char ')' :: t.text)).text := by
      simp [Expr.text_call, inParens, Tail.text_called]
    rw [text] at starts
    rw [Expr.text_call] at short
    simp only [inParens, List.length_append, List.length_cons] at short
    have args_short : ∀ e ∈ args, e.listed.length < n := by
      intro e mem
      have := length_le_joined (List.mem_map_of_mem (f := Expr.listed) mem)
      omega
    refine (reads_target covers h.1 (by omega) rfl (fun operand update short takes starts =>
      reads_head callee h.1 operand (.inl calls) update short _ takes (.of_isPostfix rfl k _) c starts) starts).mono
        fun p d heads => heads.step fun s d' stands meets => ?_
    obtain ⟨s', d'', advances, ⟨x, ss, rfl, all⟩, behind⟩ := advances_call (r := r) (e := s) covers h.2 args_short
      meets (by simp [Reach.call, calls])
    exact ⟨_, d'', advances, stands.call all, behind.meets follows.suits.brace⟩
  | .update span op false argument, h, _, reach, updates, short, t, _, follows, c, starts => by
    have calls : r.calls = true := reach.resolve_right (by simp [Expr.isPlainCallee])
    have ambiguous := h.1.plain
    have text : (Expr.update span op false argument).text ++ t.text = argument.text ++ (Tail.updated op t).text := by
      simp [Expr.text_update, h.1.textIf, Tail.text_updated]
    rw [text] at starts
    rw [Expr.text_update, h.1.textIf] at short
    simp only [List.length_append] at short
    have head := reads_head (r := r) argument h.2 (Expr.isOperand_of_plain h.2 ambiguous) (.inl calls)
      (by rintro _ _ _ rfl; cases ambiguous) (by omega) (.updated op t)
      (fun e => by rw [ambiguous] at e; cases e) (.of_isPostfix rfl k _) c starts
    refine head.mono fun p d heads => heads.step fun s d' stands meets => ?_
    obtain ⟨s', d'', advances, ⟨x, rfl⟩, behind⟩ := advances_update (g := g) (k := k) (r := r) (e := s) meets
      (by simp [Reach.update, calls, updates span op argument rfl])
    exact ⟨_, d'', advances, stands.update op false, behind.meets follows.suits.brace⟩
  | .update span op true argument, _, operand, _, _, _, _, _, _, _, _ => by cases operand
  | .assignment .., _, operand, _, _, _, _, _, _, _, _ => by cases operand
  | .unary .., _, operand, _, _, _, _, _, _, _, _ => by cases operand
  | .sequence .., _, operand, _, _, _, _, _, _, _, _ => by cases operand
  | .conditional .., _, operand, _, _, _, _, _, _, _, _ => by cases operand
  | .unknown _, _, operand, _, _, _, _, _, _, _, _ => by cases operand
  | .member _ _ _ (.other _), h, _, _, _, _, _, _, _, _, _ => h.2.elim

/-! ## Assignments -/

omit covers in
/-- What follows a primary expression is read, up to a mark that does not belong to the operand. -/
theorem reads_operandFrom {updates : Bool} {e : Expr} {t : Tail} {p : Surface.Expr} {c : Cursor}
    (heads : Heads g k ⟨true, updates⟩ p c e t) (stop : t.mark.isPostfix = false)
    {post : Surface.Expr → Cursor → Prop}
    (whole : assignOp? t.mark.token = none → ∀ s d, s.Stands e → d.Meets t → post s d)
    (assigned : ∀ op, assignOp? t.mark.token = some op → ∀ s d, s.Stands e → d.Meets t →
      Reads (assignmentTail g k s op d.lexeme) d post) :
    Reads (operandFrom g k updates p) c post := by
  have loop : (k.header && (p.isTwofold && p.isAssignable false &&
      ((c.facing .plain).lexeme.isWord "in" || (c.facing .plain).lexeme.isWord "of"))) = false := by
    cases header : k.header with
    | false => rfl
    | true =>
      cases twofold : p.isTwofold with
      | false => rfl
      | true =>
        obtain ⟨isIn, isOf⟩ := heads.loop twofold header
        simp [isIn, isOf]
  have equals (b : Bool) : (p.isTwofold && p.isAssignable false && (c.facing .plain).lexeme.isPunct "=" && !b) =
      false := by
    cases twofold : p.isTwofold with
    | false => rfl
    | true => simp [heads.equals twofold]
  simp only [operandFrom, isLoopPattern, reads_bind, reads_get, reads_pure, loop, Bool.false_eq_true, ↓reduceIte,
    equalsBehind?]
  refine reads_readsOtherwise fun b => ?_
  simp only [equals b, Bool.false_eq_true, ↓reduceIte, reads_pure, postfixFrom, reads_bind, reads_rounds]
  obtain ⟨s, d, advances, stands, meets⟩ := heads.advances
  refine advances _ _ (by simp) fun rounds enough => ?_
  refine reads_postfixIn_stop (by rintro rfl; simp at enough) ?_ ?_
  · rw [meets.token]
    exact Mark.token_not_mem stop
  · simp only [reads_look, meets.token]
    cases op : assignOp? t.mark.token with
    | none => exact (reads_pure _ _ _).mpr (whole op s d stands meets)
    | some op' => exact assigned op' op s d stands meets

/-- The value of an assignment is read behind its operator. -/
theorem reads_assignmentTail {op : AssignOp} {left right : Expr} {span : Span} {s : Surface.Expr}
    (stands : s.Stands left)
    (target : (if op = .assign then s.target? else s.updateTarget?) = some s)
    (h : right.Canonical rule) (short : right.listed.length < n) {t : Tail} (close : t.mark.isClose = true)
    (suits : t.mark.Suits k) {c : Cursor} (meets : c.Meets (.assigned op (right.listed ++ t.text))) :
    Reads (assignmentTail g k s op c.lexeme) c fun s' d =>
      s'.Stands (.assignment span op left right) ∧ d.Meets t := by
  have inside := meets.accept .plain
  have lead := Expr.lead_listed h t (by rintro e; simp [e, Mark.isClose] at close)
  have settled : Cursor.At { c.lexeme.stop.facing .plain with
      pending := (c.lexeme.stop.facing .plain).pending.filter fun p => !s.patternOnly.contains p } .plain
      (.char ' ' :: (right.listed ++ t.text)) :=
    ⟨inside.slot, inside.rest, by rw [inside.pending]; rfl⟩
  simp only [assignmentTail, target, reads_bind, reads_accept, settle, reads_modify, reads_extentFrom, reads_pure]
  refine (covers.expr h (.listed right) short close suits.right rfl (settled.starts.of_space lead.calm)).mono ?_
  exact fun v d read => ⟨stands.assignment read.1 op, read.2⟩

end

/-! ## Operators in front of an operand -/

/-- An operator that is a name is one of three words. -/
theorem unaryOp?_name {w : String} (h : IsName w.toList) (other : w ∉ ["typeof", "void", "delete"]) :
    unaryOp? (.word w) = none := by
  have signs : ∀ op ∈ UnaryOp.all, op.token ∈ ["typeof", "void", "delete"] ∨
      op.token.toList.head?.any (fun c => !isWordChar c && c != '\\') = true := by decide
  exact h.find?_eq_none other signs

theorem startsWith_eq_false {p w : String} (h : ¬w.toList <+: p.toList) : p.startsWith w = false := by
  rw [Bool.eq_false_iff]
  intro starts
  rw [String.startsWith, String.Slice.startsWith_string_iff, String.copy_toSlice] at starts
  exact h starts

/-- The tokens of operators in front of an operand, and of others that would be read before it. -/
structure Token.IsPrimary (t : Token) : Prop where
  unary : unaryOp? t = none
  update : updateOp? t = none
  other : t ∉ [.word "await", .word "yield", .privateName]

section

variable {g : Level} {k : Context}

/-- No primary expression starts with an operator. -/
theorem not_reads_primary {p : String} (mem : p ∈ ["!", "~", "-", "+", "++", "--"]) {c : Cursor}
    (token : c.lexeme.token = .punct p) {post : Surface.Expr → Cursor → Prop} : ¬Reads (primary g k) c post := by
  have markup : p.startsWith "<" = false := by
    have : ∀ p ∈ ["!", "~", "-", "+", "++", "--"], ¬"<".toList <+: p.toList := by decide
    exact startsWith_eq_false (this p mem)
  simp only [List.mem_cons, List.not_mem_nil, or_false] at mem
  simp only [primary, reads_bind, reads_look, token]
  rcases mem with rfl | rfl | rfl | rfl | rfl | rfl <;>
    simpa [markup] using not_reads_failure c post

/-- Where a primary expression is read, no operator stands. -/
theorem Lead.isPrimary {m : Mark} {s : List Symbol} (h : Lead m s) {c : Cursor} (starts : c.Starts s)
    {post : Surface.Expr → Cursor → Prop} (read : Reads (primary g k) c post) : c.lexeme.token.IsPrimary := by
  have leads := h.token
  rw [← Cursor.Sees.token starts] at leads
  generalize token : c.lexeme.token = t at leads
  cases leads with
  | @name id _ reference _ _ =>
    have ne (w : String) (mem : w ∈ reservedWords) : id.name ≠ w := by
      rintro rfl
      exact reference.2 mem
    refine ⟨unaryOp?_name reference.1 ?_, rfl, ?_⟩
    · simp [ne "typeof" (by decide), ne "void" (by decide), ne "delete" (by decide)]
    · simp [ne "await" (by decide), ne "yield" (by decide)]
  | keyword mem _ =>
    have : ∀ w ∈ leadWords, unaryOp? (.word w) = none ∧ updateOp? (.word w) = none ∧
        Token.word w ∉ [.word "await", .word "yield", .privateName] := by decide
    obtain ⟨unary, update, other⟩ := this _ mem
    exact ⟨unary, update, other⟩
  | number | string => exact ⟨rfl, rfl, by simp⟩
  | slash mem =>
    have : ∀ p ∈ ["/", "/="], unaryOp? (.punct p) = none ∧ updateOp? (.punct p) = none := by decide
    exact ⟨(this _ mem).1, (this _ mem).2, by simp⟩
  | bracket mem _ =>
    have : ∀ p ∈ ["(", "[", "\x7b"], unaryOp? (.punct p) = none ∧ updateOp? (.punct p) = none := by decide
    exact ⟨(this _ mem).1, (this _ mem).2, by simp⟩
  | unary op =>
    cases op with
    | not => exact absurd read (not_reads_primary (by decide) token)
    | bitNot => exact absurd read (not_reads_primary (by decide) token)
    | neg => exact absurd read (not_reads_primary (by decide) token)
    | plus => exact absurd read (not_reads_primary (by decide) token)
    | typeOf =>
      simp only [primary, reads_bind, reads_look, token, UnaryOp.lexical, wordExpr] at read
      exact absurd read (not_reads_failure _ _)
    | void =>
      simp only [primary, reads_bind, reads_look, token, UnaryOp.lexical, wordExpr] at read
      exact absurd read (not_reads_failure _ _)
    | delete =>
      simp only [primary, reads_bind, reads_look, token, UnaryOp.lexical, wordExpr] at read
      exact absurd read (not_reads_failure _ _)
  | update op =>
    have mem : op.token ∈ ["!", "~", "-", "+", "++", "--"] := by cases op <;> decide
    exact absurd read (not_reads_primary mem token)

theorem reads_unary_primary {updates : Bool} {c : Cursor} (token : c.lexeme.token.IsPrimary)
    {post : Surface.Expr → Cursor → Prop}
    (h : Reads (primary g k) c fun p d => Reads (operandFrom g k updates p) d post) :
    Reads (unary g k updates) c post := by
  simp only [unary, reads_bind, reads_look, token.unary, token.update]
  have other := token.other
  split
  · rename_i await
    simp [await] at other
  · rename_i yield
    simp [yield] at other
  · rename_i privateName
    simp [privateName] at other
  · simpa only [reads_bind] using h

end

namespace Mark

theorem isBoundary_of_isClose {m : Mark} (h : m.isClose = true) : m.isBoundary = true := by
  cases m <;> simp_all [isClose, isBoundary]

variable {m : Mark} (h : m.isBoundary = true)

include h

theorem isPostfix_of_boundary : m.isPostfix = false := by
  cases m <;> simp_all [isBoundary, isPostfix]

theorem ne_dot_of_boundary : m ≠ .dot := by
  rintro rfl
  cases h

theorem assignOp?_of_boundary : assignOp? m.token = none := by
  have : ∀ m ∈ all, m.isBoundary = true → assignOp? m.token = none := by decide
  exact this m m.mem_all h

end Mark

/-- A boundary may stand behind every operand. -/
theorem Tail.Follows.of_boundary {t : Tail} (h : t.mark.isBoundary = true) {k : Context} (suits : t.mark.Suits k)
    (e : Expr) : t.Follows k e := by
  refine ⟨suits, fun op mark => ?_⟩
  rw [mark] at h
  cases h

section

variable {g : Level} {n : Nat} (covers : g.Covers definedTarget n) {k : Context}

include covers

/-- An operand is read with the operators in front of it. -/
theorem reads_unary {e : Expr} {text : List Symbol} {updates : Bool} {t : Tail} {c : Cursor}
    (h : e.Canonical definedTarget) (short : text.length ≤ n) (shows_ : e.Shows t.mark text)
    (boundary : t.mark.isBoundary = true) (suits : t.mark.Suits k) (place : updates = false → e.IsPlace)
    (starts : c.Starts (text ++ t.text)) :
    Reads (unary g k updates) c fun s d => s.Stands e ∧ d.Meets t := by
  have follows := Tail.Follows.of_boundary boundary suits e
  have whole {p : Surface.Expr} {d : Cursor} (heads : Heads g k ⟨true, updates⟩ p d e t) :
      Reads (operandFrom g k updates p) d fun s d => s.Stands e ∧ d.Meets t := by
    refine reads_operandFrom heads (Mark.isPostfix_of_boundary boundary) (fun _ s d stands meets => ⟨stands, meets⟩) ?_
    intro op assign
    rw [Mark.assignOp?_of_boundary boundary] at assign
    cases assign
  have operand (lead : Lead t.mark (text ++ t.text))
      (head : Reads (primary g k) c fun p d => Heads g k ⟨true, updates⟩ p d e t) :
      Reads (unary g k updates) c fun s d => s.Stands e ∧ d.Meets t :=
    reads_unary_primary (lead.isPrimary starts head) (head.mono fun p d heads => whole heads)
  cases shows_ with
  | parens compound =>
    simp only [inParens, List.length_cons, List.length_append] at short
    exact operand (Lead.of_parens _ _ _) (reads_primary_parens covers h compound (by omega) follows starts)
  | bare unit loose =>
    have takes : e.Takes t.mark := fun _ => Mark.ne_dot_of_boundary boundary
    have lead := e.lead h t takes
    cases e with
    | assignment span op left right =>
      let tail : Tail := .assigned op (right.listed ++ t.text)
      have text : (Expr.assignment span op left right).text ++ t.text = left.text ++ tail.text := by
        simp [tail, Expr.text_assignment, Tail.text_assigned]
      have plain := h.2.1.plain
      have follows : tail.Follows k left :=
        ⟨.of_ne k (by simp [tail, Tail.assigned]) (by simp [tail, Tail.assigned]), fun _ _ => h.2.1⟩
      rw [text] at starts lead
      rw [Expr.text_assignment] at short
      simp only [List.length_append, List.length_cons] at short
      have head : Reads (primary g k) c fun p d => Heads g k ⟨true, updates⟩ p d left tail := by
        refine reads_head covers left h.2.2.1 (Expr.isOperand_of_plain h.2.2.1 plain) (.inl rfl) ?_ (by omega) tail ?_
          follows c starts
        · rintro _ _ _ rfl
          cases plain
        · simp [tail, Expr.Takes, Tail.assigned]
      refine reads_unary_primary (lead.isPrimary starts head) (head.mono fun p d heads => ?_)
      have found : assignOp? tail.mark.token = some op := by cases op <;> rfl
      refine reads_operandFrom heads rfl (fun none => ?_) fun op' some s d' stands meets => ?_
      · rw [found] at none
        cases none
      · rw [found] at some
        cases some
        refine reads_assignmentTail covers stands ?_ h.2.2.2 (by omega) (loose rfl) suits meets
        split
        · exact stands.target h.2.1
        · rename_i compound
          exact stands.updateTarget h.2.1 (h.1 compound)
    | unary span op argument =>
      have canonical : argument.Canonical definedTarget := h
      have inner : Lead t.mark (argument.textIf argument.isLoose ++ t.text) :=
        Expr.lead_textIf fun _ => argument.lead h t fun _ => Mark.ne_dot_of_boundary boundary
      have found : unaryOp? op.lexical = some op := by cases op <;> rfl
      rw [Expr.text_unary, List.append_assoc, List.cons_append, Cursor.Starts, View.of_unary] at starts
      rw [Expr.text_unary] at short
      simp only [List.length_append, List.length_cons] at short
      simp only [unary, reads_bind, reads_look, starts.token, found, reads_accept, reads_extentFrom, reads_pure]
      refine (covers.unary canonical (by omega) (argument.shows_textIf t.mark) boundary suits.right (by simp)
        ((starts.accept .plain).starts.of_space inner.calm)).mono ?_
      exact fun s d read => ⟨read.1.unary op, read.2⟩
    | update span op leading argument =>
      cases leading with
      | false =>
        refine operand lead (reads_head covers _ h rfl (.inl rfl) ?_ short t takes follows c starts)
        intro _ _ _ _
        cases updates with
        | true => rfl
        | false => exact (place rfl).elim
      | true =>
        have inner := argument.lead h.2 t fun _ => Mark.ne_dot_of_boundary boundary
        obtain ⟨a, rest, first, other⟩ := inner.first
        rw [Expr.text_updateLeading, h.1.textIf] at starts short
        rw [List.append_assoc, first, Cursor.Starts, View.of_update op (by simp_all)] at starts
        have inside := (starts.accept .plain).starts
        rw [← first] at inside
        have unary_ : unaryOp? (.punct op.token) = none := by cases op <;> rfl
        have update : updateOp? (.punct op.token) = some op := by cases op <;> rfl
        have positive : 0 < (Symbol.ofString op.token).length := by cases op <;> decide
        simp only [List.length_append] at short
        simp only [unary, reads_bind, reads_look, starts.token, unary_, update, reads_accept, reads_extentFrom]
        have shows_ := argument.shows_textIf t.mark
        rw [h.1.textIf] at shows_
        refine (covers.unary h.2 (by omega) shows_ boundary suits.right (fun _ => h.1) inside).mono fun s d read => ?_
        exact whole (.whole (read.1.update op true) read.2 follows (by simp))
    | conditional => cases unit
    | sequence => cases unit
    | unknown => exact h.elim
    | _ =>
      exact operand lead (reads_head covers _ h rfl (.inl rfl) (by simp) short t takes follows c starts)

/-! ## Whole expressions -/

omit covers in
/-- In front of a mark that ends an expression nothing goes on with it. -/
theorem reads_conditional_stop {s : Surface.Expr} {t : Tail} (close : t.mark.isClose = true) {c : Cursor}
    (meets : c.Meets t) {post : Surface.Expr → Cursor → Prop} (h : post s c) :
    Reads (conditionalFrom g k s) c post := by
  have ask : c.lexeme.isPunct "?" = false := by
    have : ∀ m ∈ Mark.all, m.isClose = true → (m.token == .punct "?") = false := by decide
    rw [meets.isPunct]
    exact this _ t.mark.mem_all close
  simpa only [conditionalFrom, reads_bind, reads_tryPunct, ask, Bool.false_eq_true, ↓reduceIte, reads_pure] using h

omit covers in
theorem reads_chain_stop {s : Surface.Expr} {admits : BinaryOp → Bool} {t : Tail}
    (stop : t.mark.isClose = true ∨ t.mark = .ask) {c : Cursor} (meets : c.Meets t)
    {post : Surface.Expr → Cursor → Prop} (h : post s c) : Reads (chainFrom g k admits s) c post := by
  have binary : binaryOp? t.mark.token = none := by
    have : ∀ m ∈ Mark.all, m.isClose = true ∨ m = .ask → binaryOp? m.token = none := by decide
    exact this _ t.mark.mem_all stop
  simp only [chainFrom, reads_bind, reads_rounds, chainIn, reads_look, meets.token, binary, reads_pure]
  exact h

/-- Behind the first operand of an expression without a comma, which a reader finds, the rest is read. -/
theorem reads_listed {u : Parse Surface.Expr} {m : Nat} (le : m ≤ n)
    (operand : ∀ {e : Expr} {text : List Symbol} {t : Tail} {c : Cursor}, e.Canonical definedTarget →
      text.length ≤ m → e.Shows t.mark text → t.mark.isBoundary = true → t.mark.Suits k →
      c.Starts (text ++ t.text) → Reads u c fun s d => s.Stands e ∧ d.Meets t)
    {e : Expr} (h : e.Canonical definedTarget) (short : e.listed.length ≤ m) {t : Tail}
    (close : t.mark.isClose = true) (suits : t.mark.Suits k) {c : Cursor}
    (starts : c.Starts (e.listed ++ t.text)) :
    Reads u c fun s d => (∃ t' : Tail, d.Meets t' ∧ t'.mark.Suits k) ∧
      Reads (chainFrom g k (fun _ => true) s) d fun s d =>
        Reads (conditionalFrom g k s) d fun s d => s.Stands e ∧ d.Meets t := by
  have boundary := Mark.isBoundary_of_isClose close
  have whole {text : List Symbol} (short : text.length ≤ m) (shows_ : e.Shows t.mark text)
      (starts : c.Starts (text ++ t.text)) :
      Reads u c fun s d => (∃ t' : Tail, d.Meets t' ∧ t'.mark.Suits k) ∧
        Reads (chainFrom g k (fun _ => true) s) d fun s d =>
          Reads (conditionalFrom g k s) d fun s d => s.Stands e ∧ d.Meets t := by
    refine (operand h short shows_ boundary suits starts).mono fun s d read => ⟨⟨t, read.2, suits⟩, ?_⟩
    exact reads_chain_stop (.inl close) read.2 (reads_conditional_stop close read.2 read)
  cases e with
  | sequence span es => exact whole short (.parens rfl) starts
  | conditional span test consequent alternate =>
    let other : Tail := .closed .colon (.char ' ' :: (alternate.listed ++ t.text))
    have branch := Expr.lead_listed h.2.1 other (by simp [other, Tail.closed])
    have last := Expr.lead_listed h.2.2 t (by rintro e; simp [e, Mark.isClose] at close)
    obtain ⟨a, rest, first, sign⟩ := branch.first
    let tail : Tail := .asked (consequent.listed ++ other.text) ⟨a, rest, first, by simp_all⟩
    have text : (Expr.conditional span test consequent alternate).listed ++ t.text =
        test.textIf test.isLoose ++ tail.text := by
      rw [Expr.listed_of_not_sequence rfl, Expr.text_conditional]
      simp [tail, other, Tail.text_asked, Tail.text_colon]
    rw [text] at starts
    rw [Expr.listed_of_not_sequence rfl, Expr.text_conditional] at short
    simp only [List.length_append, List.length_cons] at short
    have tail_suits : tail.mark.Suits k := .of_ne k (by simp [tail, Tail.asked]) (by simp [tail, Tail.asked])
    refine (operand h.1 (by omega) (test.shows_textIf tail.mark) rfl tail_suits starts).mono fun s d read =>
      ⟨⟨tail, read.2, tail_suits⟩, reads_chain_stop (.inr rfl) read.2 ?_⟩
    have ask : d.lexeme.isPunct "?" = true := read.2.isPunct "?"
    simp only [conditionalFrom, reads_bind, reads_tryPunct, ask, ↓reduceIte, reads_expect, reads_extentFrom, reads_pure]
    refine (covers.expr h.2.1 (.listed consequent) (by omega) rfl ⟨fun _ => rfl, fun e => by cases e⟩ rfl
      (read.2.accept .plain).starts).mono fun s' d' inner => ⟨inner.2.isPunct ":", ?_⟩
    refine (covers.expr h.2.2 (.listed alternate) (by omega) close suits.right rfl
      ((inner.2.accept .plain).starts.of_space last.calm)).mono fun s'' d'' final => ?_
    exact ⟨read.1.conditional inner.1 final.1, final.2⟩
  | _ =>
    rw [Expr.listed_of_not_sequence rfl] at starts short
    exact whole short (.bare rfl fun _ => close) starts

/-- An operation without its parentheses is read. -/
theorem reads_operation {span : Span} {op : BinaryOp} {left right : Expr}
    (h : (Expr.binary span op left right).Canonical definedTarget)
    (short : (Expr.operation op left right).length ≤ n) {t : Tail} (close : t.mark.isClose = true)
    (suits : t.mark.Suits k) (header : k.header = false) {c : Cursor}
    (starts : c.Starts (Expr.operation op left right ++ t.text)) :
    Reads (expr g k) c fun s d => s.Stands (.binary span op left right) ∧ d.Meets t := by
  let tail : Tail := .operated op (right.textIf right.isLoose ++ t.text)
  have boundary := Mark.isBoundary_of_isClose close
  have text : Expr.operation op left right ++ t.text =
      left.textIf (left.isLoose || (op == .pow && left.isSigned)) ++ tail.text := by
    simp [tail, Expr.operation, Tail.text_operated]
  have shows_ : left.Shows tail.mark (left.textIf (left.isLoose || (op == .pow && left.isSigned))) := by
    cases wrapped : (left.isLoose || (op == .pow && left.isSigned)) with
    | true =>
      refine .parens ?_
      cases left <;> simp_all [Expr.isLoose, Expr.isSigned, Expr.isCompound]
    | false =>
      rw [Bool.or_eq_false_iff] at wrapped
      exact .bare (Expr.isUnit_of_isLoose wrapped.1) fun loose => absurd loose (by simp [wrapped.1])
  have inner : Lead t.mark (right.textIf right.isLoose ++ t.text) :=
    Expr.lead_textIf fun _ => right.lead h.2 t fun _ => Mark.ne_dot_of_boundary boundary
  rw [text] at starts
  simp only [Expr.operation, List.length_append, List.length_cons] at short
  simp only [expr, reads_bind]
  refine (reads_unary covers h.1 (by omega) shows_ rfl ⟨by simp [tail, Tail.operated], fun e => ?_⟩ (by simp)
    starts).mono fun s d read => ?_
  · rw [header] at e
    cases e
  have found : binaryOp? tail.mark.token = some op := by cases op <;> rfl
  have right_stop : binaryOp? t.mark.token = none := by
    have : ∀ m ∈ Mark.all, m.isClose = true → binaryOp? m.token = none := by decide
    exact this _ t.mark.mem_all close
  simp only [chainFrom, reads_bind, reads_rounds, chainIn, reads_look, read.2.token, found, ↓reduceIte, reads_accept,
    reads_pure]
  refine (covers.unary h.2 (by omega) (right.shows_textIf t.mark) boundary suits.right (by simp)
    ((read.2.accept .plain).starts.of_space inner.calm)).mono fun s' d' last => ?_
  rw [read.2.rest]
  show Reads (chainIn g k (fun _ => true) (.char ' ' :: _)) d' _
  simp only [chainIn, reads_bind, reads_look, last.2.token, right_stop, reads_pure]
  exact reads_conditional_stop close last.2 ⟨read.1.binary last.1 op, last.2⟩

/-- An expression without a comma at its top is read. -/
theorem reads_expr {e : Expr} {text : List Symbol} (h : e.Canonical definedTarget) (written : e.Written text)
    (short : text.length ≤ n) {t : Tail} (close : t.mark.isClose = true) (suits : t.mark.Suits k)
    (header : k.header = false) {c : Cursor} (starts : c.Starts (text ++ t.text)) :
    Reads (expr g k) c fun s d => s.Stands e ∧ d.Meets t := by
  cases written with
  | listed =>
    simp only [expr, reads_bind]
    refine (reads_listed covers (Nat.le_refl n) ?_ h short close suits starts).mono fun s d read => read.2
    exact fun h short shows_ boundary suits starts => reads_unary covers h short shows_ boundary suits (by simp) starts
  | parens compound =>
    have boundary := Mark.isBoundary_of_isClose close
    simp only [expr, reads_bind]
    refine (reads_unary covers h short (.parens compound) boundary suits (by simp) starts).mono fun s d read => ?_
    exact reads_chain_stop (.inl close) read.2 (reads_conditional_stop close read.2 read)
  | operation span op left right => exact reads_operation covers h short close suits header starts

end

end IndexedLoop
