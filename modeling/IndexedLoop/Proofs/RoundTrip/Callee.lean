import IndexedLoop.Proofs.RoundTrip.Expression

/-!
# What `new` applies to

A plain callee is read up to the arguments of `new`, and so is everything in parentheses (`reads_callee`).
-/

namespace IndexedLoop

open Lexical Parse Grammar

/-- What stands for a plain callee is complete without arguments. -/
theorem Surface.Expr.Stands.isPrimary {s : Surface.Expr} {e : IndexedLoop.Expr} (h : s.Stands e)
    (plain : e.isPlainCallee = true) : s.isPrimary = true := by
  have form := h.form
  cases e with
  | identifier id =>
    obtain ⟨x, rfl⟩ := form
    rfl
  | this span =>
    obtain ⟨x, rfl⟩ := form
    rfl
  | member span o p access =>
    cases s with
    | dot => rfl
    | subscript => rfl
    | parens => rfl
    | _ => cases form
  | _ => cases plain

namespace Expr

theorem isCompound_of_not_plainCallee {e : Expr} (h : e.isPlainCallee = false) : e.isCompound = true := by
  cases e <;> simp_all [isPlainCallee, isCompound]

end Expr

section

variable {g : Level} {k : Context}

/-- Behind a complete operand the arguments of `new` are left. -/
theorem reads_postfixIn_arguments {s : Surface.Expr} {c : Cursor} {post : Surface.Expr → Cursor → Prop}
    {rounds : List Symbol} (some : rounds ≠ []) (token : c.lexeme.token = .punct "(") (primary : s.isPrimary = true)
    (isImport : s.isImport = false) (h : post s c) : Reads (postfixIn g k ⟨false, false⟩ rounds s) c post := by
  cases rounds with
  | nil => exact absurd rfl some
  | cons x n =>
    have call : Reach.call ⟨false, false⟩ s = false := by simp [Reach.call, primary, isImport]
    rw [postfixIn]
    simpa only [reads_bind, reads_look, token, call, Bool.false_eq_true, ↓reduceIte, reads_pure] using h

theorem reads_calleeHead {c : Cursor} (token : c.lexeme.token.IsPrimary) {post : Surface.Expr → Cursor → Prop}
    (h : Reads (primary g k) c fun p d => (∀ x n args, p ≠ .call x n args) ∧ post p d) :
    Reads (calleeHead g k) c post := by
  have yield : c.lexeme.isWord "yield" = false := by
    have other := token.other
    rw [Lexeme.isWord, beq_eq_false_iff_ne]
    rintro yield
    simp [yield] at other
  simp only [calleeHead, reads_bind, reads_look, token.update, yield, Bool.false_eq_true, ↓reduceIte]
  refine h.mono fun p d found => ?_
  split
  · exact absurd rfl (found.1 _ _ _)
  · exact (reads_pure _ _ _).mpr found.2

/-- Behind the first operand of a callee the rest of it is read, up to the arguments of `new`. -/
theorem reads_calleeTail {p s : Surface.Expr} {d d' : Cursor} (advances : Advances g k ⟨false, false⟩ p d s d')
    (token : d'.lexeme.token = .punct "(") (primary : s.isPrimary = true) (isImport : s.isImport = false)
    {post : Surface.Expr → Cursor → Prop} (h : post s d') :
    Reads (do
      let e ← postfixFrom g k ⟨false, false⟩ p
      guard (e.isPrimary || e matches .new ..)
      return e) d post := by
  simp only [postfixFrom, reads_bind, reads_rounds]
  refine advances _ _ (by simp) fun rounds enough => ?_
  refine reads_postfixIn_arguments (by rintro rfl; simp at enough) token primary isImport ?_
  simp only [primary, Bool.true_or, reads_guard_true, reads_pure]
  exact h

end

section

variable {g : Level} {n : Nat} (covers : g.Covers definedTarget n) {k : Context}

include covers

/-- What `new` applies to is read up to the arguments. -/
theorem reads_callee {e : Expr} {t : Tail} {c : Cursor} (h : e.Canonical definedTarget)
    (short : (e.textIf (!e.isPlainCallee)).length ≤ n) (call : t.mark = .paren)
    (starts : c.Starts (e.textIf (!e.isPlainCallee) ++ t.text)) :
    Reads (callee g k) c fun s d => s.Stands e ∧ d.Meets t := by
  have mark : t.mark.isPostfix = true := by rw [call]; rfl
  have token {d : Cursor} (meets : d.Meets t) : d.lexeme.token = .punct "(" := by rw [meets.token, call]; rfl
  rw [callee, reads_bind]
  cases plain : e.isPlainCallee with
  | true =>
    have ambiguous := Expr.isAmbiguous_of_plainCallee plain
    have takes : e.Takes t.mark := fun other => by rw [ambiguous] at other; cases other
    rw [plain] at starts short
    have head : Reads (primary g k) c fun p d => Heads g k ⟨false, false⟩ p d e t := by
      refine reads_head covers e h (Expr.isOperand_of_plain h ambiguous) (.inr plain) ?_ short t takes
        (.of_isPostfix mark k e) c starts
      rintro _ _ _ rfl
      cases plain
    refine reads_calleeHead ((e.lead h t takes).isPrimary starts head) (head.mono fun p d heads => ⟨heads.call, ?_⟩)
    obtain ⟨s, d', advances, stands, meets⟩ := heads.advances
    exact reads_calleeTail advances (token meets) (stands.isPrimary plain) stands.isImport ⟨stands, meets⟩
  | false =>
    rw [plain] at starts short
    have length : (inParens e.text).length ≤ n := short
    simp only [inParens, List.length_cons, List.length_append] at length
    have head := reads_parens covers h (Expr.isCompound_of_not_plainCallee plain) (by omega)
      (Tail.Follows.of_isPostfix mark k e).suits starts
    refine reads_calleeHead ((Lead.of_parens t.mark _ _).isPrimary starts head) (head.mono ?_)
    rintro p d ⟨⟨x, s, rfl⟩, stands, meets⟩
    exact ⟨by simp, reads_calleeTail .refl (token meets) rfl stands.isImport ⟨stands, meets⟩⟩

end

end IndexedLoop
