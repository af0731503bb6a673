import IndexedLoop.Converter
import IndexedLoop.Proofs.Visit
import IndexedLoop.Proofs.Walk
import Mathlib

/-!
# Fresh names are fresh

A converter names the variables of its loops `$` + stem + number. Two such names are different if their
numbers are, as long as no stem ends in a digit (`NameSupply.number_eq_of_numbered_eq`), and a draw
takes a number above all those taken before, whose name is not reserved (`NameSupply.draw_not_mem`). So
the numbers of a conversion rise and its names are free (`Drawn`), and over a run of requests the names
do not repeat (`Converter.drawn_names_fresh`).
-/

namespace IndexedLoop

/-! ## Numbered names -/

/-- A number behind the stem would run together with it. -/
def endsInDigit (stem : String) : Bool := stem.toList.getLast?.any Char.isDigit

namespace NameSupply

theorem toList_numbered (stem : String) (n : Nat) :
    (numbered stem n).toList = '$' :: stem.toList ++ Nat.toDigits 10 n := by
  simp [numbered]

theorem toDigits_injective : Function.Injective (Nat.toDigits 10) := fun m n h => by
  have := congrArg (fun digits => Nat.ofDigitChars 10 digits 0) h
  simpa only [Nat.ofDigitChars_ten_toDigits] using this

/-- Read from its end, a name shows its number up to the first symbol that is no digit. -/
theorem takeWhile_reverse_numbered {stem : String} (h : endsInDigit stem = false) (n : Nat) :
    (numbered stem n).toList.reverse.takeWhile Char.isDigit = (Nat.toDigits 10 n).reverse := by
  have digits : ∀ c ∈ (Nat.toDigits 10 n).reverse, c.isDigit = true := fun c hc =>
    Nat.isDigit_of_mem_toDigits (by decide) (Nat.le_refl 10) (List.mem_reverse.mp hc)
  rw [toList_numbered, List.reverse_append, List.takeWhile_append_of_pos digits]
  suffices (('$' :: stem.toList).reverse).takeWhile Char.isDigit = [] by rw [this, List.append_nil]
  rw [List.reverse_cons]
  cases hs : stem.toList.reverse with
  | nil => decide
  | cons c rest =>
    have hc : c.isDigit = false := by
      have : stem.toList.getLast? = some c := by rw [← List.head?_reverse, hs]; rfl
      simpa [endsInDigit, this] using h
    simp [hc]

/-- The number of a name can be read off, whatever the stem is, if stems end in no digit. -/
theorem number_eq_of_numbered_eq {s t : String} {m n : Nat} (hs : endsInDigit s = false)
    (ht : endsInDigit t = false) (h : numbered s m = numbered t n) : m = n := by
  have hd : (Nat.toDigits 10 m).reverse = (Nat.toDigits 10 n).reverse := by
    rw [← takeWhile_reverse_numbered hs, ← takeWhile_reverse_numbered ht, h]
  exact toDigits_injective (List.reverse_injective hd)

/-- With one stem, different numbers give different names, whatever the stem is. -/
theorem numbered_injective (stem : String) : Function.Injective (numbered stem) := by
  intro m n h
  have hl : (numbered stem m).toList = (numbered stem n).toList := by rw [h]
  rw [toList_numbered, toList_numbered, List.append_cancel_left_eq] at hl
  exact toDigits_injective hl

/-! ## One draw -/

theorem le_firstFree (reserved : List String) (stem : String) (tries n : Nat) :
    n ≤ firstFree reserved stem tries n := by
  induction tries generalizing n with
  | zero => exact Nat.le_refl n
  | succ tries ih =>
    unfold firstFree
    split
    · exact Nat.le_of_succ_le (ih (n + 1))
    · exact Nat.le_refl n

/-- The search stops at a free name, or has met as many reserved names as it had tries. -/
theorem firstFree_cases (reserved : List String) (stem : String) (tries n : Nat) :
    numbered stem (firstFree reserved stem tries n) ∉ reserved ∨
      firstFree reserved stem tries n = n + tries ∧
        ∀ k < tries, numbered stem (n + k) ∈ reserved := by
  induction tries generalizing n with
  | zero => exact .inr ⟨rfl, fun k hk => absurd hk (Nat.not_lt_zero k)⟩
  | succ tries ih =>
    unfold firstFree
    split
    · rename_i hn
      refine (ih (n + 1)).imp_right fun ⟨e, all⟩ => ⟨by omega, fun k hk => ?_⟩
      cases k with
      | zero => exact hn
      | succ k =>
        have := all k (by omega)
        rwa [Nat.add_right_comm] at this
    · exact .inl ‹_›

/-- Numbers cannot run out: a list has no more names than it is long. -/
theorem exists_numbered_not_mem (reserved : List String) (stem : String) (n : Nat) :
    ∃ k ≤ reserved.length, numbered stem (n + k) ∉ reserved := by
  by_contra hall
  push Not at hall
  let names := (List.range (reserved.length + 1)).map fun k => numbered stem (n + k)
  have hnodup : names.Nodup :=
    List.nodup_range.map fun a b h => Nat.add_left_cancel (numbered_injective stem h)
  have hsub : names ⊆ reserved := by
    intro x hx
    obtain ⟨k, hk, rfl⟩ := List.mem_map.mp hx
    exact hall k (Nat.le_of_lt_succ (List.mem_range.mp hk))
  have := (hnodup.subperm hsub).length_le
  simp only [names, List.length_map, List.length_range] at this
  omega

/-- A drawn name is not reserved. -/
theorem draw_not_mem (s : NameSupply) (stem : String) : (s.draw stem).1 ∉ s.reserved := by
  rcases firstFree_cases s.reserved stem s.reserved.length (s.counter + 1) with free | ⟨e, all⟩
  · exact free
  · -- all names before the last one are reserved, so the last one is not
    obtain ⟨k, hk, free⟩ := exists_numbered_not_mem s.reserved stem (s.counter + 1)
    have : k = s.reserved.length := by
      by_contra hne
      exact free (all k (by omega))
    rw [draw, e]
    rwa [this] at free

/-- A draw takes a number that no draw before it took. -/
theorem counter_lt_draw (s : NameSupply) (stem : String) : s.counter < (s.draw stem).2.counter :=
  le_firstFree s.reserved stem s.reserved.length (s.counter + 1)

theorem draw_fst (s : NameSupply) (stem : String) :
    (s.draw stem).1 = numbered stem (s.draw stem).2.counter := rfl

@[simp]
theorem reserved_draw (s : NameSupply) (stem : String) : (s.draw stem).2.reserved = s.reserved := rfl

end NameSupply

/-! ## The names that a conversion draws -/

namespace Conversion

/-- The names that are drawn when a statement is met, the index before the length. -/
def drawnBy (config : Config) (s : Stmt) (st : Conversion) : List String :=
  match ForEach.ofStmt? s with
  | none => []
  | some _ =>
    let index := st.names.draw config.indexStem
    let length := index.2.draw config.lengthStem
    [index.1, length.1]

/-- The hooks of a conversion that also writes down every name it draws. -/
def recording (config : Config) : Hooks (Conversion × List String) :=
  { Hooks.idle (Conversion × List String) with
    stmt := fun s st =>
      ((convertStmt config s st.1).1, (convertStmt config s st.1).2, st.2 ++ drawnBy config s st.1)
    stmt_le := fun s st => weight_convertStmt config s st.1 }

/-- Writing the names down changes neither what is left of the statements nor the state. -/
theorem walkStmts_recording (config : Config) (ss : List Stmt) (st : Conversion)
    (names : List String) :
    (walkStmts (recording config) ss (st, names)).1 = (walkStmts (hooks config) ss st).1 ∧
      (walkStmts (recording config) ss (st, names)).2.1 = (walkStmts (hooks config) ss st).2 := by
  have closed : (Law.beside (recording config) fun t st => t.1 = st).Closed (hooks config).stmt := by
    refine Law.beside_closed (Hooks.onStatements_idle _ _) ?_
    rintro s t _ rfl
    exact ⟨rfl, rfl⟩
  exact (closed.holds (Hooks.onStatements_idle _ _)).stmts ss st (st, names) rfl

end Conversion

/-- The names are drawn with these stems, with numbers that rise from above `lo` up to `hi`, and none
of them is reserved. -/
inductive Drawn (stems reserved : List String) : (lo : Nat) → List String → (hi : Nat) → Prop
  | nil (n : Nat) : Drawn stems reserved n [] n
  | cons {stem : String} {lo n hi : Nat} {names : List String} (mem : stem ∈ stems) (lt : lo < n)
    (free : NameSupply.numbered stem n ∉ reserved) (rest : Drawn stems reserved n names hi) :
    Drawn stems reserved lo (NameSupply.numbered stem n :: names) hi

namespace Drawn

variable {stems reserved : List String} {lo mid hi : Nat} {names : List String}

theorem append {more : List String} (h : Drawn stems reserved lo names mid)
    (h' : Drawn stems reserved mid more hi) : Drawn stems reserved lo (names ++ more) hi := by
  induction h with
  | nil => exact h'
  | cons mem lt free _ ih => exact .cons mem lt free (ih h')

theorem le (h : Drawn stems reserved lo names hi) : lo ≤ hi := by
  induction h with
  | nil => exact Nat.le_refl _
  | cons _ lt _ _ ih => omega

theorem not_mem_reserved (h : Drawn stems reserved lo names hi) {x : String} (hx : x ∈ names) :
    x ∉ reserved := by
  induction h with
  | nil => cases hx
  | cons _ _ free _ ih =>
    rcases List.mem_cons.mp hx with rfl | hx
    · exact free
    · exact ih hx

theorem exists_number (h : Drawn stems reserved lo names hi) {x : String} (hx : x ∈ names) :
    ∃ stem ∈ stems, ∃ n, lo < n ∧ n ≤ hi ∧ x = NameSupply.numbered stem n := by
  induction h with
  | nil => cases hx
  | cons mem lt _ rest ih =>
    rcases List.mem_cons.mp hx with rfl | hx
    · exact ⟨_, mem, _, lt, rest.le, rfl⟩
    · obtain ⟨stem, hs, n, hlo, hhi, e⟩ := ih hx
      exact ⟨stem, hs, n, by omega, hhi, e⟩

/-- Names whose numbers lie in ranges one behind the other are different. -/
theorem disjoint {reserved' more : List String} {lo' hi' : Nat}
    (digitless : ∀ stem ∈ stems, endsInDigit stem = false)
    (h : Drawn stems reserved lo names hi) (h' : Drawn stems reserved' lo' more hi')
    (le : hi ≤ lo') : names.Disjoint more := by
  intro x hx hx'
  obtain ⟨s, hs, m, -, hm, rfl⟩ := h.exists_number hx
  obtain ⟨t, ht, n, hn, -, e⟩ := h'.exists_number hx'
  have := NameSupply.number_eq_of_numbered_eq (digitless s hs) (digitless t ht) e
  omega

theorem nodup (digitless : ∀ stem ∈ stems, endsInDigit stem = false)
    (h : Drawn stems reserved lo names hi) : names.Nodup := by
  induction h with
  | nil => exact List.nodup_nil
  | cons mem lt free rest ih =>
    refine List.nodup_cons.mpr ⟨fun hx => ?_, ih⟩
    have first := Drawn.cons mem lt free (.nil _)
    exact first.disjoint digitless rest (Nat.le_refl _) (List.mem_singleton.mpr rfl) hx

end Drawn

namespace Config

/-- The stems of the names that a conversion draws. -/
def stems (config : Config) : List String := [config.indexStem, config.lengthStem]

end Config

namespace Conversion

/-- How a conversion that writes down its names goes on: two names for each statement it converts, and
all of them drawn. -/
def Draws (config : Config) (a b : Conversion × List String) : Prop :=
  b.1.names.reserved = a.1.names.reserved ∧
  ∃ names, b.2 = a.2 ++ names ∧ 2 * a.1.converted + names.length = 2 * b.1.converted ∧
    Drawn config.stems a.1.names.reserved a.1.names.counter names b.1.names.counter

theorem Draws.refl (config : Config) (a : Conversion × List String) : Draws config a a :=
  ⟨rfl, [], by simp, by simp, .nil _⟩

theorem Draws.trans {config : Config} {a b c : Conversion × List String} (hab : Draws config a b)
    (hbc : Draws config b c) : Draws config a c := by
  obtain ⟨r₁, names₁, e₁, n₁, d₁⟩ := hab
  obtain ⟨r₂, names₂, e₂, n₂, d₂⟩ := hbc
  rw [r₁] at d₂
  refine ⟨r₂.trans r₁, names₁ ++ names₂, by rw [e₂, e₁, List.append_assoc], ?_, d₁.append d₂⟩
  rw [List.length_append]
  omega

/-- One statement: it draws two names, or it is not the idiom and nothing happens. -/
theorem draws_recording (config : Config) (s : Stmt) (a : Conversion × List String) :
    Draws config a ((recording config).stmt s a).2 := by
  obtain ⟨st, before⟩ := a
  simp only [recording]
  unfold drawnBy convertStmt
  cases ForEach.ofStmt? s with
  | none =>
    rw [List.append_nil]
    exact .refl config _
  | some each =>
    refine ⟨rfl, _, rfl, rfl, ?_⟩
    let index := st.names.draw config.indexStem
    have hindex : Drawn config.stems st.names.reserved st.names.counter [index.1] index.2.counter :=
      .cons (by simp [Config.stems]) (st.names.counter_lt_draw _) (st.names.draw_not_mem _) (.nil _)
    have hlength : Drawn config.stems st.names.reserved index.2.counter
        [(index.2.draw config.lengthStem).1] (index.2.draw config.lengthStem).2.counter :=
      .cons (by simp [Config.stems]) (index.2.counter_lt_draw _) (index.2.draw_not_mem _) (.nil _)
    exact hindex.append hlength

/-- A whole conversion. -/
theorem draws_walkStmts (config : Config) (ss : List Stmt) (a : Conversion × List String) :
    Draws config a (walkStmts (recording config) ss a).2 := by
  have closed : (Law.along (Draws config)).Closed (recording config).stmt :=
    Law.along_closed (Draws.refl config) Draws.trans (draws_recording config)
  exact (closed.holds (Hooks.onStatements_idle _ _)).stmts ss a

end Conversion

/-! ## Reserved names -/

namespace NameSupply

theorem mem_foldl_insert (names start : List String) (x : String) :
    x ∈ names.foldl (fun names name => names.insert name) start ↔ x ∈ start ∨ x ∈ names := by
  induction names generalizing start with
  | nil => simp
  | cons name rest ih =>
    rw [List.foldl_cons, ih, List.mem_insert_iff, List.mem_cons]
    tauto

theorem mem_dollarNames (program : Program) (x : String) :
    x ∈ dollarNames program ↔ x ∈ program.names ∧ x.startsWith "$" := by
  rw [dollarNames, mem_foldl_insert, List.mem_filter]
  simp

theorem startsWith_numbered (stem : String) (n : Nat) : (numbered stem n).startsWith "$" := by
  simp [numbered, String.append_assoc]

end NameSupply

/-- A drawn name does not occur in the program whose names were reserved. -/
theorem Drawn.not_mentions {stems names : List String} {lo hi : Nat} {program : Program}
    (h : Drawn stems (NameSupply.dollarNames program) lo names hi) {x : String} (hx : x ∈ names) :
    ¬ program.Mentions x := by
  intro occurs
  obtain ⟨stem, -, n, -, -, rfl⟩ := h.exists_number hx
  exact h.not_mem_reserved hx ((NameSupply.mem_dollarNames _ _).mpr
    ⟨(mem_names_iff _ _).mpr occurs, NameSupply.startsWith_numbered stem n⟩)

/-! ## Runs of a converter -/

/-- What a converter can be asked to convert. -/
inductive Request where
  | program (program : Program)
  | stmts (stmts : List Stmt)

/-- The statements of a request. -/
def Request.body : Request → List Stmt
  | .program p => p.body
  | .stmts ss => ss

namespace Converter

/-- The state in which a conversion starts. -/
def start (c : Converter) : Request → Conversion
  | .program program =>
    let names := c.namesFor program
    ⟨names, c.converted, if c.config.reserveUserNames then names.reserveLog else []⟩
  | .stmts _ => ⟨c.names, c.converted, []⟩

/-- The converter after a request. -/
def serve (c : Converter) : Request → Converter
  | .program program => (c.convert program).2.1
  | .stmts stmts => (c.convertStmts stmts).2

/-- The names that are drawn for a request. -/
def drawn (c : Converter) (request : Request) : List String :=
  (walkStmts (Conversion.recording c.config) request.body (c.start request, [])).2.2

/-- The names that are drawn for each of a sequence of requests. -/
def drawnOver (c : Converter) : List Request → List (List String)
  | [] => []
  | request :: rest => c.drawn request :: (c.serve request).drawnOver rest

theorem serve_eq (c : Converter) (request : Request) :
    c.serve request =
      c.after (walkStmts (Conversion.hooks c.config) request.body (c.start request)).2 := by
  cases request <;> rfl

@[simp]
theorem config_serve (c : Converter) (request : Request) : (c.serve request).config = c.config := by
  rw [serve_eq, after]

@[simp]
theorem converted_start (c : Converter) (request : Request) :
    (c.start request).converted = c.converted := by
  cases request <;> rfl

/-- Over a batch every request goes on from the number at which the one before it stopped. -/
theorem counter_start {c : Converter} (batch : c.config.scope = .batch) (request : Request) :
    (c.start request).names.counter = c.names.counter := by
  cases request with
  | stmts => rfl
  | program program =>
    simp only [start, namesFor, batch, reduceCtorEq, ↓reduceIte]
    split <;> rfl

theorem reserved_start {c : Converter} (reserve : c.config.reserveUserNames = true)
    (program : Program) :
    (c.start (.program program)).names.reserved = NameSupply.dollarNames program := by
  simp only [start, namesFor, reserve, ↓reduceIte, NameSupply.reserveProgram]

/-- The names of one request: two for each converted statement, and all of them drawn. -/
theorem drawn_request (c : Converter) (request : Request) :
    2 * c.converted + (c.drawn request).length = 2 * (c.serve request).converted ∧
      Drawn c.config.stems (c.start request).names.reserved (c.start request).names.counter
        (c.drawn request) (c.serve request).names.counter := by
  obtain ⟨-, names, e, count, drawn⟩ :=
    Conversion.draws_walkStmts c.config request.body (c.start request, [])
  have same := (Conversion.walkStmts_recording c.config request.body (c.start request) []).2
  rw [List.nil_append] at e
  rw [same] at count drawn
  rw [Converter.drawn, e, serve_eq]
  exact ⟨by simpa [after] using count, drawn⟩

/-- Over a batch, all numbers of a run are above the number at which it starts. -/
theorem drawnOver_above {c : Converter} (batch : c.config.scope = .batch) {requests : List Request}
    {names : List String} (h : names ∈ c.drawnOver requests) :
    ∃ reserved lo hi, c.names.counter ≤ lo ∧ Drawn c.config.stems reserved lo names hi := by
  induction requests generalizing c with
  | nil => cases h
  | cons request rest ih =>
    have first := (c.drawn_request request).2
    rw [counter_start batch] at first
    rcases List.mem_cons.mp h with rfl | h
    · exact ⟨_, _, _, Nat.le_refl _, first⟩
    · obtain ⟨reserved, lo, hi, le, drawn⟩ := ih (by rwa [config_serve]) h
      rw [config_serve] at drawn
      exact ⟨reserved, lo, hi, Nat.le_trans first.le le, drawn⟩

section Run

variable {c : Converter} (digitless : ∀ stem ∈ c.config.stems, endsInDigit stem = false)
include digitless

theorem nodup_drawn (request : Request) : (c.drawn request).Nodup :=
  (c.drawn_request request).2.nodup digitless

theorem disjoint_drawnOver (batch : c.config.scope = .batch) (requests : List Request) :
    (c.drawnOver requests).Pairwise List.Disjoint := by
  induction requests generalizing c with
  | nil => exact .nil
  | cons request rest ih =>
    refine .cons (fun later hl => ?_) (ih (by rwa [config_serve]) (by rwa [config_serve]))
    obtain ⟨reserved, lo, hi, le, drawn⟩ := drawnOver_above (by rwa [config_serve]) hl
    rw [config_serve] at drawn
    exact (c.drawn_request request).2.disjoint digitless drawn le

end Run

theorem drawn_not_mentioned {c : Converter} (reserve : c.config.reserveUserNames = true)
    (program : Program) {x : String} (hx : x ∈ c.drawn (.program program)) : ¬ program.Mentions x := by
  have h := (c.drawn_request (.program program)).2
  rw [reserved_start reserve] at h
  exact h.not_mentions hx

/-- What holds of every request that is served with the same choices holds of every request of a run. -/
theorem forall_drawnOver {c : Converter} {P : Request → List String → Prop}
    (each : ∀ d : Converter, d.config = c.config → ∀ request, P request (d.drawn request))
    (requests : List Request) : List.Forall₂ P requests (c.drawnOver requests) := by
  induction requests generalizing c with
  | nil => exact .nil
  | cons request rest ih =>
    exact .cons (each c rfl request) (ih fun d hd => each d (by rw [hd, config_serve]))

theorem length_drawnOver (c : Converter) (requests : List Request) :
    2 * c.converted + (c.drawnOver requests).flatten.length =
      2 * (requests.foldl serve c).converted := by
  induction requests generalizing c with
  | nil => simp [drawnOver]
  | cons request rest ih =>
    have first := (c.drawn_request request).1
    have later := ih (c.serve request)
    rw [drawnOver, List.flatten_cons, List.length_append, List.foldl_cons]
    omega

/-- Fresh names over a run. A converter draws two names for each statement it converts. The names that
it draws for one request are all different, and if it reserves the names of programs, none of those it
draws for a program occurs in it. Over a batch, none was drawn for an earlier request. -/
theorem drawn_names_fresh (c : Converter) (requests : List Request)
    (index : endsInDigit c.config.indexStem = false)
    (length : endsInDigit c.config.lengthStem = false) :
    2 * c.converted + (c.drawnOver requests).flatten.length =
      2 * (requests.foldl serve c).converted ∧
    List.Forall₂ (fun request names => names.Nodup ∧
        (c.config.reserveUserNames = true → ∀ program, request = .program program →
          ∀ x ∈ names, ¬ program.Mentions x)) requests (c.drawnOver requests) ∧
    (c.config.scope = .batch → (c.drawnOver requests).Pairwise List.Disjoint) := by
  have digitless : ∀ stem ∈ c.config.stems, endsInDigit stem = false := by
    simp [Config.stems, index, length]
  refine ⟨length_drawnOver c requests, forall_drawnOver (fun d hd request => ?_) requests,
    fun batch => disjoint_drawnOver digitless batch requests⟩
  refine ⟨nodup_drawn (by rwa [hd]) request, fun reserve => ?_⟩
  rintro program rfl x hx
  exact drawn_not_mentioned (by rwa [hd]) program hx

/-- A `forEach` statement without a place in a text. -/
def forEachOver (receiver param : String) (body : List Stmt) : Stmt :=
  .expression Span.none (.call Span.none
    (.member Span.none (Expr.ident receiver) (Expr.ident "forEach") .dot)
    [.function ⟨Span.none, none, [Expr.ident param], ⟨Span.none, body⟩⟩])

/-- A program with two loops, one in the other, over an array `$i1`, and then statements with one
more. -/
def exampleRequests : List Request :=
  [.program ⟨Span.none, [forEachOver "$i1" "x" [forEachOver "x" "y" []]]⟩,
    .stmts [forEachOver "a" "z" []]]

/-- The name `$i1` is left out, and the statements go on behind number 5. -/
theorem drawn_names_fresh_exampleRequests :
    (endsInDigit "i" = false ∧ endsInDigit "len" = false) ∧
    (new {}).drawnOver exampleRequests =
      [["$i2", "$len3", "$i4", "$len5"], ["$i6", "$len7"]] ∧
    ((new {}).drawnOver exampleRequests).Pairwise List.Disjoint :=
  ⟨by decide, by cbv, (drawn_names_fresh (new {}) exampleRequests (by decide) (by decide)).2.2 rfl⟩

end Converter

end IndexedLoop
