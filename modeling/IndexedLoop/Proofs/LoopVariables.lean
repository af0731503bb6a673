import IndexedLoop.Proofs.Skeleton

/-!
# The two variables of a loop

The variables of a loop are named with different numbers, and still they can have the same name: if the stem of
the index is the stem of the length with a number behind it, then the index `$i1` + `1` and the length `$i` + `11`
are both called `$i11` (`NameSupply.exists_number_of_numbered_eq`). The second number is larger than the first by
ten or more then, so the names of at least nine numbers in between were reserved (`Config.nine_of_drawPair_eq`).
For all other stems, and if fewer names are reserved, the two variables differ
(`Converter.loop_variables_differ`).
-/

namespace IndexedLoop

open NameSupply (numbered)

/-! ## Names with the same text -/

namespace NameSupply

/-- What stands in front in the digits of a number is a number again. -/
theorem exists_eq_toDigits {digits rest : List Char} {m : Nat} (ne : digits ≠ [])
    (h : Nat.toDigits 10 m = digits ++ rest) : ∃ d, digits = Nat.toDigits 10 d := by
  induction rest using List.reverseRecOn generalizing m with
  | nil => exact ⟨m, by rw [h, List.append_nil]⟩
  | append_singleton rest c ih =>
    by_cases small : m < 10
    · -- a single digit cannot be split
      have length := congrArg List.length h
      rw [Nat.toDigits_of_lt_base small] at length
      have := List.length_pos_iff.mpr ne
      simp only [List.length_singleton, List.length_append] at length
      omega
    · rw [Nat.toDigits_of_base_le (by decide) (by omega), ← List.append_assoc] at h
      exact ih (List.append_inj' h rfl).1

theorem ofDigitChars_append_toDigits (digits : List Char) (n : Nat) :
    Nat.ofDigitChars 10 (digits ++ Nat.toDigits 10 n) 0 =
      10 ^ (Nat.toDigits 10 n).length * Nat.ofDigitChars 10 digits 0 + n := by
  rw [Nat.ofDigitChars_append, Nat.ofDigitChars_eq_ofDigitChars_zero, Nat.ofDigitChars_ten_toDigits]

/-- Two names with the same text: the longer number takes up the end of the longer stem. -/
theorem exists_number_of_numbered_eq {s t : String} {m n : Nat} (lt : n < m) (h : numbered s n = numbered t m) :
    ∃ d, 0 < d ∧ s = t ++ toString d ∧ n + 10 ≤ m := by
  have texts : s.toList ++ Nat.toDigits 10 n = t.toList ++ Nat.toDigits 10 m := by
    have := congrArg String.toList h
    rw [toList_numbered, toList_numbered, List.cons_append, List.cons_append, List.cons.injEq] at this
    exact this.2
  rcases List.append_eq_append_iff.mp texts with ⟨digits, -, longer⟩ | ⟨digits, stem, longer⟩
  · -- the smaller number would have the digits of the larger one at its end
    have value := congrArg (Nat.ofDigitChars 10 · 0) longer
    simp only [ofDigitChars_append_toDigits, Nat.ofDigitChars_ten_toDigits] at value
    omega
  · have value := congrArg (Nat.ofDigitChars 10 · 0) longer
    simp only [ofDigitChars_append_toDigits, Nat.ofDigitChars_ten_toDigits] at value
    have ne : digits ≠ [] := by
      rintro rfl
      simp at value
      omega
    obtain ⟨d, rfl⟩ := exists_eq_toDigits ne longer
    rw [Nat.ofDigitChars_ten_toDigits] at value
    have pos : 0 < d := by
      rcases Nat.eq_zero_or_pos d with rfl | pos
      · omega
      · exact pos
    refine ⟨d, pos, String.toList_inj.mp (by simpa using stem), ?_⟩
    have ten : 10 ≤ 10 ^ (Nat.toDigits 10 n).length :=
      Nat.le_self_pow (Nat.length_toDigits_pos).ne' 10
    have := Nat.mul_le_mul ten pos
    omega

/-- The smallest case, in which the number behind the stem is followed by `1`. -/
theorem numbered_append_toString {d : Nat} (pos : 0 < d) (stem : String) :
    numbered (stem ++ toString d) 1 = numbered stem (10 * d + 1) := by
  apply String.toList_inj.mp
  rw [toList_numbered, toList_numbered, ← Nat.toDigits_append_toDigits (by decide) pos (by decide)]
  simp

/-! ## The number that a draw takes -/

/-- The search passes over reserved names only. -/
theorem mem_of_lt_firstFree {reserved : List String} {stem : String} {tries n k : Nat} (le : n ≤ k)
    (lt : k < firstFree reserved stem tries n) : numbered stem k ∈ reserved := by
  induction tries generalizing n with
  | zero => exact absurd lt (Nat.not_lt.mpr le)
  | succ tries ih =>
    unfold firstFree at lt
    split at lt
    · rename_i first
      rcases Nat.eq_or_lt_of_le le with rfl | later
      · exact first
      · exact ih later lt
    · omega

/-- A draw takes the first number whose name is free. -/
theorem draw_of_first {s : NameSupply} {stem : String} {n : Nat} (lt : s.counter < n)
    (before : ∀ k, s.counter < k → k < n → numbered stem k ∈ s.reserved) (free : numbered stem n ∉ s.reserved) :
    s.draw stem = (numbered stem n, { s with counter := n }) := by
  have above := s.counter_lt_draw stem
  have taken : (s.draw stem).2.counter = n := by
    rcases Nat.lt_trichotomy (s.draw stem).2.counter n with less | same | more
    · exact absurd (before _ above less) (s.draw_not_mem stem)
    · exact same
    · exact absurd (mem_of_lt_firstFree lt more) free
  exact Prod.ext (by rw [draw_fst, taken]) (by rw [← taken]; rfl)

end NameSupply

/-! ## The names of one loop -/

namespace Config

/-- The stem of the index is the stem of the length with a number behind it. -/
def StemsRunTogether (config : Config) : Prop :=
  ∃ d, 0 < d ∧ config.indexStem = config.lengthStem ++ toString d

/-- If both names of a pair are the same, then the stems run together, and nine names or more are reserved. -/
theorem nine_of_drawPair_eq {config : Config} {s : NameSupply}
    (same : (config.drawPair s).1.1 = (config.drawPair s).1.2) :
    config.StemsRunTogether ∧ 9 ≤ s.reserved.length := by
  let index := (s.draw config.indexStem).2
  have lt : index.counter < (index.draw config.lengthStem).2.counter := index.counter_lt_draw _
  obtain ⟨d, pos, stem, far⟩ := NameSupply.exists_number_of_numbered_eq lt same
  refine ⟨⟨d, pos, stem⟩, ?_⟩
  -- the numbers between the two are all passed over
  let passed := (List.range 9).map fun k => numbered config.lengthStem (index.counter + 1 + k)
  have nodup : passed.Nodup :=
    List.nodup_range.map fun a b h => Nat.add_left_cancel (NameSupply.numbered_injective _ h)
  have sub : passed ⊆ s.reserved := by
    intro x hx
    obtain ⟨k, hk, rfl⟩ := List.mem_map.mp hx
    rw [List.mem_range] at hk
    exact NameSupply.mem_of_lt_firstFree (Nat.le_add_right _ k)
      (show _ < (index.draw config.lengthStem).2.counter by omega)
  simpa [passed] using (nodup.subperm sub).length_le

end Config

/-! ## The loops of a program -/

namespace Converter

theorem exists_counts_of_mem_made {c : Converter} {program : Program} {l : ForLoop} (h : l ∈ c.made program) :
    ∃ k, l.Counts (c.naming program k) := by
  obtain ⟨pair, hpair, counts⟩ := exists_of_mem_left (c.counts_made_convert program) h
  obtain ⟨k, -, rfl⟩ := List.mem_map.mp hpair
  exact ⟨k, counts⟩

/-- There is a loop for each conversion. -/
theorem exists_mem_made {c : Converter} {program : Program} {k : Nat} (hk : k < program.conversions) :
    ∃ l ∈ c.made program, l.Counts (c.naming program k) :=
  exists_of_mem_right (c.counts_made_convert program) (List.mem_map.mpr ⟨k, List.mem_range.mpr hk, rfl⟩)

/-! ### A program in which they are the same -/

/-- Statements that mention the names with a stem from number 2 up to a last number, and then a loop over `a`. -/
def crowded (stem : String) (last : Nat) : Program :=
  ⟨Span.none,
    (List.range' 2 (last - 1)).map (fun k => Stmt.expression Span.none (Expr.ident (numbered stem k)))
      ++ [forEachOver "a" "x" []]⟩

theorem mentionedInStmts_append (x : String) (xs ys : List Stmt) :
    MentionedInStmts x (xs ++ ys) ↔ MentionedInStmts x xs ∨ MentionedInStmts x ys := by
  induction xs with
  | nil => simp [MentionedInStmts]
  | cons s rest ih => simp only [List.cons_append, MentionedInStmts, ih, or_assoc]

theorem mentionedInStmts_map_ident (x : String) (f : Nat → String) (ns : List Nat) :
    MentionedInStmts x (ns.map fun k => .expression Span.none (Expr.ident (f k))) ↔ ∃ k ∈ ns, f k = x := by
  induction ns with
  | nil => simp [MentionedInStmts]
  | cons n rest ih =>
    rw [List.map_cons, MentionedInStmts, ih, Stmt.Mentions, Expr.ident, Expr.Mentions]
    simp [Identifier.synthesized]

theorem mem_dollarNames_crowded (stem : String) (last : Nat) (x : String) :
    x ∈ NameSupply.dollarNames (crowded stem last) ↔ ∃ k, 2 ≤ k ∧ k ≤ last ∧ numbered stem k = x := by
  rw [NameSupply.mem_dollarNames, mem_names_iff, Program.Mentions, crowded, mentionedInStmts_append,
    mentionedInStmts_map_ident]
  constructor
  · rintro ⟨⟨k, hk, rfl⟩ | other, dollar⟩
    · rw [List.mem_range'_1] at hk
      exact ⟨k, by omega, by omega, rfl⟩
    · -- the other names of the program do not start as drawn names do
      simp only [forEachOver, MentionedInStmts, Stmt.Mentions, Expr.Mentions, MentionedInExprs, Expr.ident,
        Identifier.synthesized, Block.Mentions, Option.mem_def, reduceCtorEq, false_and, exists_false, or_false,
        false_or] at other
      rcases other with (rfl | rfl) | rfl <;> exact absurd dollar (by decide +kernel)
  · rintro ⟨k, ge, le, rfl⟩
    exact ⟨.inl ⟨k, by rw [List.mem_range'_1]; omega, rfl⟩, NameSupply.startsWith_numbered stem k⟩

theorem conversions_crowded_pos (stem : String) (last : Nat) : 0 < (crowded stem last).conversions := by
  have idiom : ForEach.ofStmt? (forEachOver "a" "x" []) =
      some ⟨Expr.ident "a", [Identifier.synthesized "x"], ⟨Span.none, []⟩⟩ := rfl
  rw [Program.conversions, crowded, conversionsOfStmts_append, conversionsOfStmts, Stmt.conversions_of_some idiom]
  omega

/-- The names of the loop are the same if just the names between its numbers are reserved. -/
theorem drawPair_crowded {config : Config} {d : Nat} (pos : 0 < d)
    (stem : config.indexStem = config.lengthStem ++ toString d) :
    (config.drawPair ⟨0, NameSupply.dollarNames (crowded config.lengthStem (10 * d))⟩).1 =
      (numbered config.lengthStem (10 * d + 1), numbered config.lengthStem (10 * d + 1)) := by
  let reserved := NameSupply.dollarNames (crowded config.lengthStem (10 * d))
  have name : numbered config.indexStem 1 = numbered config.lengthStem (10 * d + 1) := by
    rw [stem, NameSupply.numbered_append_toString pos]
  have free : numbered config.lengthStem (10 * d + 1) ∉ reserved := by
    intro mem
    obtain ⟨k, -, le, same⟩ := (mem_dollarNames_crowded ..).mp mem
    have := NameSupply.numbered_injective _ same
    omega
  have index : NameSupply.draw ⟨0, reserved⟩ config.indexStem = (numbered config.indexStem 1, ⟨1, reserved⟩) :=
    NameSupply.draw_of_first Nat.one_pos (fun k gt lt => absurd lt (Nat.not_lt.mpr gt)) (by rwa [name])
  have length : NameSupply.draw ⟨1, reserved⟩ config.lengthStem =
      (numbered config.lengthStem (10 * d + 1), ⟨10 * d + 1, reserved⟩) := by
    refine NameSupply.draw_of_first (by simp only; omega) (fun k gt lt => ?_) free
    exact (mem_dollarNames_crowded ..).mpr ⟨k, gt, by omega, rfl⟩
  simp only [Config.drawPair, reserved, index, length, name]

/-- The variables of every loop that is made have two different names, unless the stem of the index is the stem
of the length with a number behind it and nine names are reserved. For all such stems there is a program that
shows it: its loop has one variable only. -/
theorem loop_variables_differ (c : Converter) (program : Program) :
    (¬ c.config.StemsRunTogether ∨ (c.namesFor program).reserved.length < 9 →
      ∀ l ∈ c.made program, ∃ names, l.Counts names ∧ names.1 ≠ names.2) ∧
    (c.config.reserveUserNames = true → c.config.StemsRunTogether →
      ∃ program, ∃ l ∈ (new c.config).made program, ∃ name, l.Counts (name, name)) := by
  constructor
  · intro apart l hl
    obtain ⟨k, counts⟩ := exists_counts_of_mem_made hl
    refine ⟨_, counts, fun same => ?_⟩
    obtain ⟨together, nine⟩ := Config.nine_of_drawPair_eq same
    rw [Config.reserved_supplyAt] at nine
    rcases apart with apart | few
    · exact apart together
    · omega
  · generalize c.config = config
    rintro reserve ⟨d, pos, stem⟩
    let program := crowded config.lengthStem (10 * d)
    obtain ⟨l, hl, counts⟩ := exists_mem_made (c := new config) (conversions_crowded_pos config.lengthStem (10 * d))
    refine ⟨program, l, hl, numbered config.lengthStem (10 * d + 1), ?_⟩
    have names : (new config).namesFor program = ⟨0, NameSupply.dollarNames program⟩ := by
      have fresh : NameSupply.new.restart = NameSupply.new := rfl
      simp only [namesFor, new, reserve, ↓reduceIte, NameSupply.reserveProgram, fresh, ite_self]
      rfl
    have pair : (new config).naming program 0 =
        (numbered config.lengthStem (10 * d + 1), numbered config.lengthStem (10 * d + 1)) := by
      simp only [naming, Config.naming, Config.supplyAt, names]
      exact drawPair_crowded pos stem
    rwa [pair] at counts

/-- Stems that run together. -/
def exampleStems : Config :=
  { indexStem := "i1", lengthStem := "i" }

theorem loop_variables_differ_exampleCopies :
    (exampleConverter.namesFor exampleCopies).reserved.length < 9 ∧
    (∀ l ∈ exampleConverter.made exampleCopies, ∃ names, l.Counts names ∧ names.1 ≠ names.2) ∧
    exampleStems.StemsRunTogether ∧
    ∃ program, ∃ l ∈ (new exampleStems).made program, ∃ name, l.Counts (name, name) := by
  have few : (exampleConverter.namesFor exampleCopies).reserved.length < 9 := by cbv
  have together : exampleStems.StemsRunTogether := ⟨1, Nat.one_pos, by decide⟩
  exact ⟨few, (loop_variables_differ exampleConverter exampleCopies).1 (.inr few), together,
    (loop_variables_differ (new exampleStems) exampleCopies).2 rfl together⟩

/-- The loop has one variable, which is set to zero first and to the length then. -/
theorem same_variable_exampleStems :
    (loopsOf ((new exampleStems).convert (crowded "i" 10)).1.events).map ForLoop.declared = [["$i11", "$i11"]] := by
  cbv

end Converter

end IndexedLoop
