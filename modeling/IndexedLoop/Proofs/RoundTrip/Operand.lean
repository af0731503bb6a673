import IndexedLoop.Proofs.RoundTrip.Lists

/-!
# What follows an operand

The reader of what follows a primary expression goes from one operand to a longer one, round by round
(`Advances`), and stops in front of a mark that belongs to something else.
-/

namespace IndexedLoop

open Lexical Parse Grammar

namespace Mark

/-- The tokens of the marks that go on with an operand, and of others that would. -/
def postfixTokens : List Token :=
  [.punct ".", .punct "?.", .punct "[", .punct "`", .punct "(", .punct "++", .punct "--"]

theorem token_not_mem {m : Mark} (h : m.isPostfix = false) : m.token ∉ postfixTokens := by
  have : ∀ m ∈ all, m.isPostfix = false → m.token ∉ postfixTokens := by decide
  exact this m m.mem_all h

end Mark

/-! ## Rounds -/

/-- From the operand `p` in front of `c` the reader of what follows comes to the operand `s` in front of
`d`. -/
def Advances (g : Level) (k : Context) (r : Reach) (p : Surface.Expr) (c : Cursor) (s : Surface.Expr)
    (d : Cursor) : Prop :=
  ∀ rounds post, c.rest.length < rounds.length →
    (∀ rounds', d.rest.length < rounds'.length → Reads (postfixIn g k r rounds' s) d post) →
    Reads (postfixIn g k r rounds p) c post

namespace Advances

variable {g : Level} {k : Context} {r : Reach} {p q s : Surface.Expr} {c d e : Cursor}

theorem refl : Advances g k r p c p c := fun rounds _ enough next => next rounds enough

theorem trans (h : Advances g k r p c q d) (h' : Advances g k r q d s e) : Advances g k r p c s e :=
  fun rounds post enough next => h rounds post enough fun rounds' enough' => h' rounds' post enough' next

/-- One round: a step, and then the other rounds. -/
theorem of_step (step : Parse Surface.Expr) {post : Surface.Expr → Cursor → Prop} (h : Reads step c post)
    (shorter : ∀ s d, post s d → d.rest.length < c.rest.length)
    (round : ∀ x n post, Reads (step >>= postfixIn g k r n) c post →
      Reads (postfixIn g k r (x :: n) p) c post) : ∃ s d, Advances g k r p c s d ∧ post s d := by
  obtain ⟨s, d, run, hp⟩ := h
  refine ⟨s, d, fun rounds post' enough next => ?_, hp⟩
  cases rounds with
  | nil => simp at enough
  | cons x n =>
    refine round x n post' ?_
    rw [reads_bind, reads_of_eq run]
    refine next n ?_
    have := shorter s d hp
    simp only [List.length_cons] at enough
    omega

end Advances

theorem updateToken?_eq_none {p : String} (h : Token.punct p ∉ Mark.postfixTokens) :
    UpdateOp.ofToken? p = none := by
  simp only [Mark.postfixTokens, List.mem_cons, Token.punct.injEq, List.not_mem_nil, or_false, not_or] at h
  simp [UpdateOp.ofToken?, UpdateOp.all, UpdateOp.token, Ne.symm h.2.2.2.2.2.1, Ne.symm h.2.2.2.2.2.2]

/-- The reader stops in front of other tokens. -/
theorem reads_postfixIn_stop {g : Level} {k : Context} {r : Reach} {e : Surface.Expr} {c : Cursor}
    {post : Surface.Expr → Cursor → Prop} {rounds : List Symbol} (some : rounds ≠ [])
    (stop : c.lexeme.token ∉ Mark.postfixTokens) (h : post e c) :
    Reads (postfixIn g k r rounds e) c post := by
  cases rounds with
  | nil => exact absurd rfl some
  | cons x n =>
    rw [postfixIn]
    simp only [reads_bind, reads_look]
    split
    case h_6 token =>
      rw [token] at stop
      rw [updateToken?_eq_none stop]
      exact (reads_pure _ _ _).mpr h
    case h_7 => exact (reads_pure _ _ _).mpr h
    all_goals
      rename_i token
      rw [token] at stop
      exact absurd stop (by decide)

section

variable {g : Level} {k : Context} {r : Reach} {e : Surface.Expr} {c : Cursor}

theorem advances_dot {id : Identifier} {h : IsName id.name.toList} {t : Tail}
    (meets : c.Meets (.dotted id h t.text)) (members : r.members e = true) :
    ∃ s d, Advances g k r e c s d ∧ (∃ x y, s = .dot x e ⟨y, id.name⟩) ∧ d.Behind k t := by
  have token : c.lexeme.token = .punct "." := meets.token
  have inside : (c.lexeme.stop.facing .plain).At .plain (id.text ++ t.text) := meets.accept .plain
  have seen := inside.sees
  rw [View.of_identifier h t.breaks] at seen
  have stop := seen.accept k.target
  refine Advances.of_step (do accept c.lexeme .plain; dotTail k e) ?_ ?_ fun x n post next => ?_
  · simp only [reads_bind, reads_accept, dotTail, reads_look, seen.token, reads_extentFrom, reads_pure]
    exact ⟨⟨_, _, rfl⟩, .of_target stop⟩
  · rintro s d ⟨-, behind⟩
    rw [behind.rest, meets.rest, Tail.text_dotted]
    simp only [List.length_cons, List.length_append]
    omega
  · rw [postfixIn]
    simpa only [reads_bind, reads_look, token, members, if_true] using next

theorem advances_update {op : UpdateOp} {t : Tail} (meets : c.Meets (.updated op t))
    (update : r.update e = true) :
    ∃ s d, Advances g k r e c s d ∧ (∃ x, s = .update x op false e) ∧ d.Behind k t := by
  have token : c.lexeme.token = .punct op.token := meets.token
  refine Advances.of_step (do
    accept c.lexeme k.operand
    return .update (← extentFrom e.extent.start) op false e) ?_ ?_ fun x n post next => ?_
  · simp only [reads_bind, reads_accept, reads_extentFrom, reads_pure]
    exact ⟨⟨_, rfl⟩, .of_operand (meets.accept k.operand)⟩
  · rintro s d ⟨-, behind⟩
    rw [behind.rest, meets.rest, Tail.text_updated]
    have : op.token.length = 2 := by cases op <;> rfl
    rw [List.length_append, Symbol.ofString, List.length_map, String.length_toList, this]
    omega
  · rw [postfixIn]
    simp only [reads_bind, reads_look]
    split
    case h_6 p _ _ _ _ _ other =>
      obtain rfl : p = op.token := by
        rw [token] at other
        exact (Token.punct.inj other).symm
      have found : UpdateOp.ofToken? op.token = some op := by cases op <;> rfl
      simpa only [found, update, if_true, reads_bind, reads_pure] using next
    all_goals
      rename_i other
      rw [token] at other
      cases op <;> simp [UpdateOp.token] at other

variable {rule : TargetRule} {n : Nat} (covers : g.Covers rule n)

include covers

theorem advances_subscript {index : Expr} (h : index.Canonical rule) (short : index.text.length < n) {t : Tail}
    (meets : c.Meets (.indexed (index.text ++ .char ']' :: t.text))) (members : r.members e = true)
    (isImport : e.isImport = false) :
    ∃ s d, Advances g k r e c s d ∧ (∃ x i, s = .subscript x e i ∧ i.Stands index) ∧ d.Behind k t := by
  have token : c.lexeme.token = .punct "[" := meets.token
  have inside : (c.lexeme.stop.facing .plain).At .plain (index.text ++ (Tail.closed .bracket t.text).text) := by
    rw [Tail.text_bracket]
    exact meets.accept .plain
  refine Advances.of_step (do
    guard !e.isImport
    accept c.lexeme .plain
    let index ← enclosed g "]" k.target
    return .subscript (← extentFrom e.extent.start) e index) ?_ ?_ fun x n post next => ?_
  · simp only [reads_bind, reads_guard, reads_accept, reads_extentFrom, reads_pure]
    refine ⟨by rw [isImport]; rfl, ?_⟩
    refine (reads_enclosed covers (show Closer.bracket ≠ .comma by decide) k.target h short inside.starts).mono ?_
    exact fun i d read => ⟨⟨_, i, rfl, read.1⟩, .of_target read.2⟩
  · rintro s d ⟨-, behind⟩
    rw [behind.rest, meets.rest, Tail.text_indexed]
    simp only [List.length_cons, List.length_append]
    omega
  · rw [postfixIn]
    simpa only [reads_bind, reads_look, token, members, if_true, reads_pure] using next

theorem advances_call {es : List Expr} (h : canonicalExprs rule es) (short : ∀ e ∈ es, e.listed.length < n)
    {t : Tail} (meets : c.Meets (.called (joined (es.map Expr.listed) ++ .char ')' :: t.text)))
    (call : r.call e = true) :
    ∃ s d, Advances g k r e c s d ∧ (∃ x ss, s = .call x e ss ∧ Surface.Expr.AllStand ss es) ∧
      d.Behind k t := by
  have token : c.lexeme.token = .punct "(" := meets.token
  refine Advances.of_step (do
    accept c.lexeme .plain
    let args ← arguments g k.operand
    return .call (← extentFrom e.extent.start) e args) ?_ ?_ fun x n post next => ?_
  · simp only [reads_bind, reads_accept, reads_extentFrom, reads_pure]
    refine (reads_arguments covers h short k.operand (meets.accept .plain)).mono ?_
    exact fun ss d read => ⟨⟨_, ss, rfl, read.1⟩, .of_operand read.2⟩
  · rintro s d ⟨-, behind⟩
    rw [behind.rest, meets.rest, Tail.text_called]
    simp only [List.length_cons, List.length_append]
    omega
  · rw [postfixIn]
    simpa only [reads_bind, reads_look, token, call, if_true, reads_pure] using next

end

end IndexedLoop
