import IndexedLoop.Proofs.LoopVariables

/-!
# A draw takes the first free number

A draw counts on, round by round, until the name with its number is free (`NameSupply.Rounds`). Nothing in a round says
that there is a last one. There is, because different numbers have different names and only so many names are
reserved: as many rounds as there are reserved names, and one more, are enough (`NameSupply.Rounds.le`). The rounds end at
the least number above the counter whose name is free (`NameSupply.rounds_iff`), and so does a draw
(`NameSupply.draw_takes_first_free`).
-/

namespace IndexedLoop

namespace NameSupply

variable {s : NameSupply} {stem : String}

/-! ## Rounds -/

/-- The supply at its next number. -/
def advance (s : NameSupply) : NameSupply := { s with counter := s.counter + 1 }

theorem counter_advance_add (s : NameSupply) (k : Nat) : s.advance.counter + k = s.counter + (k + 1) :=
  Nat.succ_add_eq_add_succ s.counter k

/-- The rounds of a draw, with what they end in. Each takes the next number, and the last one is the first whose name is
free. -/
inductive Rounds (stem : String) : NameSupply → Nat → String × NameSupply → Prop
  | last {s : NameSupply} (free : numbered stem s.advance.counter ∉ s.reserved) :
    Rounds stem s 1 (numbered stem s.advance.counter, s.advance)
  | again {s : NameSupply} {k : Nat} {r : String × NameSupply}
    (taken : numbered stem s.advance.counter ∈ s.reserved) (rest : Rounds stem s.advance k r) :
    Rounds stem s (k + 1) r

/-- The numbers that a draw can take. -/
def freeAbove (s : NameSupply) (stem : String) : Set Nat :=
  {n | s.counter < n ∧ numbered stem n ∉ s.reserved}

theorem isLeast_counter_add_one (free : numbered stem s.advance.counter ∉ s.reserved) :
    IsLeast (s.freeAbove stem) (s.counter + 1) :=
  ⟨⟨Nat.lt_succ_self _, free⟩, fun _ above => above.1⟩

/-- A number whose name is taken can be passed over. -/
theorem freeAbove_advance (taken : numbered stem s.advance.counter ∈ s.reserved) :
    s.advance.freeAbove stem = s.freeAbove stem := by
  ext n
  refine ⟨fun ⟨above, free⟩ => ⟨Nat.lt_of_succ_lt above, free⟩, fun ⟨above, free⟩ => ⟨?_, free⟩⟩
  have ne : s.advance.counter ≠ n := by
    rintro rfl
    exact free taken
  exact Nat.lt_of_le_of_ne above ne

theorem Rounds.isLeast {k : Nat} {r : String × NameSupply} (rounds : Rounds stem s k r) :
    IsLeast (s.freeAbove stem) (s.counter + k) ∧
      r = (numbered stem (s.counter + k), { s with counter := s.counter + k }) := by
  induction rounds with
  | last free => exact ⟨isLeast_counter_add_one free, rfl⟩
  | @again s k r taken rest ih =>
    rw [freeAbove_advance taken, counter_advance_add] at ih
    exact ih

theorem Rounds.of_isLeast {k : Nat} (least : IsLeast (s.freeAbove stem) (s.counter + k)) :
    Rounds stem s k (numbered stem (s.counter + k), { s with counter := s.counter + k }) := by
  induction k generalizing s with
  | zero => exact absurd least.1.1 (Nat.lt_irrefl _)
  | succ k ih =>
    by_cases taken : numbered stem s.advance.counter ∈ s.reserved
    · rw [← freeAbove_advance taken, ← counter_advance_add] at least
      have rest := ih least
      rw [counter_advance_add] at rest
      exact .again taken rest
    · have first := least.unique (isLeast_counter_add_one taken)
      obtain rfl : k = 0 := by omega
      exact .last taken

/-- The rounds end at the least number that can be taken, with its name. -/
theorem rounds_iff {k : Nat} {r : String × NameSupply} :
    Rounds stem s k r ↔ IsLeast (s.freeAbove stem) (s.counter + k) ∧
      r = (numbered stem (s.counter + k), { s with counter := s.counter + k }) := by
  refine ⟨Rounds.isLeast, ?_⟩
  rintro ⟨least, rfl⟩
  exact .of_isLeast least

/-- In each round but the last a reserved name is met, and no name twice. -/
theorem Rounds.le {k : Nat} {r : String × NameSupply} (rounds : Rounds stem s k r) :
    k ≤ s.reserved.length + 1 := by
  obtain ⟨j, le, free⟩ := exists_numbered_not_mem s.reserved stem (s.counter + 1)
  have := rounds.isLeast.1.2 (show s.counter + 1 + j ∈ s.freeAbove stem from ⟨by omega, free⟩)
  omega

theorem Rounds.unique {k k' : Nat} {r r' : String × NameSupply} (rounds : Rounds stem s k r)
    (rounds' : Rounds stem s k' r') : k = k' ∧ r = r' := by
  obtain ⟨least, rfl⟩ := rounds.isLeast
  obtain ⟨least', rfl⟩ := rounds'.isLeast
  obtain rfl : k = k' := Nat.add_left_cancel (least.unique least')
  exact ⟨rfl, rfl⟩

/-! ## The number that is drawn -/

theorem isLeast_counter_draw (s : NameSupply) (stem : String) :
    IsLeast (s.freeAbove stem) (s.draw stem).2.counter := by
  refine ⟨⟨s.counter_lt_draw stem, s.draw_not_mem stem⟩, fun n ⟨above, free⟩ => ?_⟩
  by_contra lt
  exact free (mem_of_lt_firstFree above (Nat.lt_of_not_le lt))

/-- A draw is the end of its rounds. -/
theorem exists_rounds_draw (s : NameSupply) (stem : String) : ∃ k, Rounds stem s k (s.draw stem) := by
  obtain ⟨k, e⟩ := Nat.exists_eq_add_of_lt (s.counter_lt_draw stem)
  have least := s.isLeast_counter_draw stem
  rw [Nat.add_assoc] at e
  rw [e] at least
  refine ⟨k + 1, rounds_iff.mpr ⟨least, ?_⟩⟩
  rw [← e]
  rfl

/-! ## Supplies that are in use -/

/-- What a supply can be asked for. -/
inductive Step where
  | draw (stem : String)
  | reserve (name : String)
  | reserveProgram (program : Program)
  | restart

/-- The supply behind a step. -/
def perform (s : NameSupply) : Step → NameSupply
  | .draw stem => (s.draw stem).2
  | .reserve name => s.reserve name
  | .reserveProgram program => s.reserveProgram program
  | .restart => s.restart

theorem nodup_foldl_insert {start : List String} (nodup : start.Nodup) (names : List String) :
    (names.foldl (fun names name => names.insert name) start).Nodup := by
  induction names generalizing start with
  | nil => exact nodup
  | cons name rest ih => exact ih nodup.insert

theorem nodup_perform (nodup : s.reserved.Nodup) (step : Step) : (s.perform step).reserved.Nodup := by
  cases step with
  | draw | restart => exact nodup
  | reserve name => exact nodup.insert
  | reserveProgram program => exact nodup_foldl_insert List.nodup_nil _

/-- Each reserved name is held once. -/
theorem nodup_foldl_perform (nodup : s.reserved.Nodup) (steps : List Step) :
    (steps.foldl perform s).reserved.Nodup := by
  induction steps generalizing s with
  | nil => exact nodup
  | cons step rest ih => exact ih (nodup_perform nodup step)

/-- Whatever a supply was asked for before, a draw ends after as many rounds as there are reserved names and one more, at
the latest, and it takes the least number above the counter whose name is not reserved. The reserved names stay. -/
theorem draw_takes_first_free (steps : List Step) (stem : String) :
    let s := steps.foldl perform new
    s.reserved.Nodup ∧
    ∃ n, IsLeast {n | s.counter < n ∧ "$" ++ stem ++ toString n ∉ s.reserved} n ∧
      s.draw stem = ("$" ++ stem ++ toString n, { counter := n, reserved := s.reserved }) ∧
      ∃ rounds ≤ s.reserved.length + 1, ∀ k r, Rounds stem s k r ↔ k = rounds ∧ r = s.draw stem := by
  intro s
  obtain ⟨rounds, ends⟩ := s.exists_rounds_draw stem
  refine ⟨nodup_foldl_perform List.nodup_nil steps, (s.draw stem).2.counter, s.isLeast_counter_draw stem, rfl,
    rounds, ends.le, fun k r => ⟨fun ends' => ends'.unique ends, ?_⟩⟩
  rintro ⟨rfl, rfl⟩
  exact ends

/-- The names `$i1` and `$i3` are passed over, each by the draw that would have come to it. -/
example :
    let s := [Step.reserve "$i1", .reserve "$i3", .draw "i"].foldl perform new
    s.counter = 2 ∧ (s.draw "i").1 = "$i4" ∧ (s.draw "len").1 = "$len3" := by
  decide

end NameSupply

end IndexedLoop
