import IndexedLoop.ForEach
import IndexedLoop.Proofs.Rounding

/-!
# The loop does what `forEach` does

A small semantics of the nodes of which `ForEach.toLoop` builds its loop: `evaluate` gives an expression its
value, and `Run` says how code changes the variables. Of the statements of the callback nothing is known
but what they do to the variables as a whole, so `Run` also lists the states in which they are started.
`ForEach.toLoop_iterates` says that the loop starts the callback once for each element of the array, and
with what: each round binds the parameters anew, whatever the round before did to them.
-/

namespace IndexedLoop

/-! ## Values and variables -/

/-- What a variable can hold. An array is dense: each of its places holds a value. Numbers are exact, as
the numbers of elements and places are. -/
inductive Value where
  | undefined
  | boolean (value : Bool)
  | number (value : ℚ)
  | array (elements : List Value)
  /-- Anything else, of which no more than the identity is known. -/
  | object (identity : Nat)
deriving Inhabited

/-- What the variables hold. -/
abbrev Env := String → Value

namespace Env

/-- A variable is given a value. -/
def set (env : Env) (x : String) (value : Value) : Env :=
  fun y => if y = x then value else env y

@[simp]
theorem set_self (env : Env) (x : String) (value : Value) : env.set x value x = value := by
  simp [set]

@[simp]
theorem set_of_ne {env : Env} {x y : String} {value : Value} (h : y ≠ x) :
    env.set x value y = env y := by
  simp [set, h]

end Env

theorem Binary64.value_zero : (Binary64.zero false).value = 0 := by
  have : units (Binary64.zero false).magnitude = 0 := by decide
  simp only [value, this, Nat.cast_zero, zero_div, mul_zero]

namespace Value

/-- `value.name`. -/
def field? : Value → String → Option Value
  | .array elements, "length" => some (.number elements.length)
  | _, _ => none

/-- `value[key]`. Behind the end of an array nothing is found. -/
def element? : Value → Value → Option Value
  | .array elements, .number q =>
    some (if q.den = 1 ∧ 0 ≤ q.num then elements.getD q.num.toNat .undefined else .undefined)
  | _, _ => none

/-- `left < right`. -/
def less? : Value → Value → Option Value
  | .number a, .number b => some (.boolean (a < b))
  | _, _ => none

theorem element?_natCast (elements : List Value) (k : Nat) :
    (Value.array elements).element? (.number k) = some (elements.getD k .undefined) := by
  simp [element?]

end Value

/-! ## What expressions and statements do -/

/-- The value of an expression and the variables behind it, operands from left to right. -/
def evaluate : Expr → Env → Option (Value × Env)
  | .identifier id, env => some (env id.name, env)
  | .literal ⟨_, .number x⟩, env => if x.isFinite then some (.number x.value, env) else none
  | .member _ object (.identifier property) .dot, env => do
    let (base, env) ← evaluate object env
    return (← base.field? property.name, env)
  | .member _ object key .bracket, env => do
    let (base, env) ← evaluate object env
    let (key, env) ← evaluate key env
    return (← base.element? key, env)
  | .binary _ .lt left right, env => do
    let (left, env) ← evaluate left env
    let (right, env) ← evaluate right env
    return (← left.less? right, env)
  | .unary _ .void argument, env => do
    let (_, env) ← evaluate argument env
    return (.undefined, env)
  | .update _ .increment false (.identifier id), env =>
    match env id.name with
    | .number q => some (.number q, env.set id.name (.number (q + 1)))
    | _ => none
  | _, _ => none

/-- The variables behind a declaration, whose variables are set from left to right. -/
def declare : List Declarator → Env → Option Env
  | [], env => some env
  | ⟨_, _, none⟩ :: rest, env => declare rest env
  | ⟨_, id, some init⟩ :: rest, env => do
    let (value, env) ← evaluate init env
    declare rest (env.set id.name value)

/-- The variables behind the first part of the head of a loop. -/
def enter : Option ForInit → Env → Option Env
  | none, env => some env
  | some (.declaration decl), env => declare decl.declarators env
  | some (.expression e), env => (evaluate e env).map (·.2)

/-- Another round is made, and the variables behind the test. -/
def goesOn : Option Expr → Env → Option (Bool × Env)
  | none, env => some (true, env)
  | some e, env =>
    match evaluate e env with
    | some (.boolean go, env) => some (go, env)
    | _ => none

/-- The variables behind the last part of the head of a loop. -/
def turn : Option Expr → Env → Option Env
  | none, env => some env
  | some e, env => (evaluate e env).map (·.2)

/-- The statements of a function, of which only what they do to the variables is known. -/
structure Callback where
  stmts : List Stmt
  effect : Env → Env

/-- What can be run: a statement, statements one after the other, and a loop whose head was entered. -/
inductive Code where
  | stmt (s : Stmt)
  | stmts (ss : List Stmt)
  | rounds (loop : ForLoop)

/-- The code, run with the variables in the first state, ends in the second, and the callback is started
in the states listed. A list that is the statements of the callback is run as one step. -/
inductive Run (callback : Callback) : Code → Env → List Env → Env → Prop
  | callback (env : Env) : Run callback (.stmts callback.stmts) env [env] (callback.effect env)
  | nil (env : Env) (other : [] ≠ callback.stmts) : Run callback (.stmts []) env [] env
  | cons {s : Stmt} {rest : List Stmt} {env env₁ env₂ : Env} {starts₁ starts₂ : List Env}
    (other : s :: rest ≠ callback.stmts) (first : Run callback (.stmt s) env starts₁ env₁)
    (second : Run callback (.stmts rest) env₁ starts₂ env₂) :
    Run callback (.stmts (s :: rest)) env (starts₁ ++ starts₂) env₂
  | declaration {decl : Declaration} {env env₁ : Env}
    (declared : declare decl.declarators env = some env₁) :
    Run callback (.stmt (.declaration decl)) env [] env₁
  | block {b : Block} {env env₁ : Env} {starts : List Env}
    (body : Run callback (.stmts b.body) env starts env₁) :
    Run callback (.stmt (.block b)) env starts env₁
  | forLoop {loop : ForLoop} {env env₁ env₂ : Env} {starts : List Env}
    (entered : enter loop.init env = some env₁)
    (rounds : Run callback (.rounds loop) env₁ starts env₂) :
    Run callback (.stmt (.forLoop loop)) env starts env₂
  | stop {loop : ForLoop} {env env₁ : Env} (test : goesOn loop.test env = some (false, env₁)) :
    Run callback (.rounds loop) env [] env₁
  | round {loop : ForLoop} {env env₁ env₂ env₃ env₄ : Env} {starts₁ starts₂ : List Env}
    (test : goesOn loop.test env = some (true, env₁))
    (body : Run callback (.stmt loop.body) env₁ starts₁ env₂)
    (turned : turn loop.update env₂ = some env₃)
    (rounds : Run callback (.rounds loop) env₃ starts₂ env₄) :
    Run callback (.rounds loop) env (starts₁ ++ starts₂) env₄

/-- There is one way to run code. -/
theorem Run.unique {callback : Callback} {code : Code} {env final final' : Env}
    {starts starts' : List Env} (h : Run callback code env starts final)
    (h' : Run callback code env starts' final') : starts' = starts ∧ final' = final := by
  induction h generalizing starts' final' with
  | callback env =>
    generalize hc : Code.stmts callback.stmts = code at h'
    cases h' with
    | callback => exact ⟨rfl, rfl⟩
    | nil _ other => exact absurd (Code.stmts.inj hc).symm other
    | cons other => exact absurd (Code.stmts.inj hc).symm other
    | _ => cases hc
  | nil env other =>
    generalize hc : Code.stmts [] = code at h'
    cases h' with
    | callback => exact absurd (Code.stmts.inj hc) other
    | nil => exact ⟨rfl, rfl⟩
    | _ => cases hc
  | @cons s rest _ _ _ _ _ other _ _ ih₁ ih₂ =>
    generalize hc : Code.stmts (s :: rest) = code at h'
    cases h' with
    | callback => exact absurd (Code.stmts.inj hc) other
    | cons _ first rest =>
      cases hc
      obtain ⟨rfl, rfl⟩ := ih₁ first
      obtain ⟨rfl, rfl⟩ := ih₂ rest
      exact ⟨rfl, rfl⟩
    | _ => cases hc
  | declaration declared =>
    cases h' with
    | declaration declared' => exact ⟨rfl, Option.some.inj (declared'.symm.trans declared)⟩
  | block _ ih =>
    cases h' with
    | block body => exact ih body
  | forLoop entered _ ih =>
    cases h' with
    | forLoop entered' rounds =>
      obtain rfl := Option.some.inj (entered'.symm.trans entered)
      exact ih rounds
  | stop test =>
    cases h' with
    | stop test' => cases test'.symm.trans test; exact ⟨rfl, rfl⟩
    | round test' => cases test'.symm.trans test
  | round test _ turned _ ih₁ ih₂ =>
    cases h' with
    | stop test' => cases test'.symm.trans test
    | round test' body turned' rounds =>
      cases test'.symm.trans test
      obtain ⟨rfl, rfl⟩ := ih₁ body
      obtain rfl := Option.some.inj (turned'.symm.trans turned)
      obtain ⟨rfl, rfl⟩ := ih₂ rounds
      exact ⟨rfl, rfl⟩

/-! ## One round -/

/-- What `forEach` passes to its function as the argument at place `j` when it calls it for the element
at place `k`. -/
def argumentAt (A : List Value) (k : Nat) : (j : Nat) → Value
  | 0 => A.getD k .undefined
  | 1 => .number k
  | 2 => .array A
  | _ => .undefined

namespace ForEach

section

variable {A : List Value} {r index length : String} {span : Span} {k : Nat} {env : Env}

theorem evaluate_argument (array : env r = .array A) (place : env index = .number k) (j : Nat) :
    evaluate (argument (.identifier ⟨span, r⟩) index j) env = some (argumentAt A k j, env) := by
  match j with
  | 0 => simp [argument, argumentAt, property, Expr.ident, Identifier.synthesized, evaluate, array,
      place, Value.element?_natCast]
  | 1 => simp [argument, argumentAt, Expr.ident, Identifier.synthesized, evaluate, place]
  | 2 => simp [argument, argumentAt, evaluate, array]
  | _ + 3 =>
    have finite : (Binary64.zero false).isFinite = true := by decide
    simp [argument, argumentAt, Expr.zero, evaluate, finite]

/-- The bindings set the parameters, the first of which is the `j`-th, and nothing else, and then the
callback is started. -/
theorem run_bindings (callback : Callback) (span : Span) (ids : List Identifier) (j : Nat)
    (distinct : (ids.map (·.name)).Nodup) (hr : r ∉ ids.map (·.name)) (hi : index ∉ ids.map (·.name))
    (array : env r = .array A) (place : env index = .number k) :
    ∃ start, Run callback (.stmts (bindings (.identifier ⟨span, r⟩) index j ids ++ callback.stmts))
        env [start] (callback.effect start) ∧
      (∀ i p, ids[i]? = some p → start p.name = argumentAt A k (j + i)) ∧
      ∀ x, x ∉ ids.map (·.name) → start x = env x := by
  induction ids generalizing j env with
  | nil => exact ⟨env, .callback env, by simp, fun _ _ => rfl⟩
  | cons id rest ih =>
    simp only [List.map_cons, List.nodup_cons, List.mem_cons, not_or] at distinct hr hi
    have array₁ : env.set id.name (argumentAt A k j) r = .array A := by
      rw [Env.set_of_ne hr.1, array]
    have place₁ : env.set id.name (argumentAt A k j) index = .number k := by
      rw [Env.set_of_ne hi.1, place]
    obtain ⟨start, run, params, frame⟩ := ih (j + 1) distinct.2 hr.2 hi.2 array₁ place₁
    refine ⟨start, ?_, ?_, fun x hx => ?_⟩
    · have other : bindings (.identifier ⟨span, r⟩) index j (id :: rest) ++ callback.stmts ≠
          callback.stmts := fun h => by
        have := congrArg List.length h
        simp only [bindings, List.cons_append, List.length_cons, List.length_append] at this
        omega
      refine .cons other (.declaration ?_) run
      simp [varOf, variableOf, declare, evaluate_argument array place, Identifier.synthesized]
    · intro i p hp
      cases i with
      | zero =>
        obtain rfl : id = p := by simpa using hp
        rw [frame id.name distinct.1, Env.set_self, Nat.add_zero]
      | succ i =>
        rw [params i p (by simpa using hp), Nat.add_assoc, Nat.add_comm 1 i]
    · simp only [List.map_cons, List.mem_cons, not_or] at hx
      rw [frame x hx.2, Env.set_of_ne hx.1]

end

end ForEach

/-! ## The whole loop -/

/-- The variables as the run before the `k`-th left them, or as they were before the first. -/
def leftBefore (effect : Env → Env) (env : Env) (starts : List Env) : (k : Nat) → Env
  | 0 => env
  | k + 1 => effect (starts.getD k default)

theorem leftBefore_cons (effect : Env → Env) (env start : Env) (starts : List Env) (k : Nat) :
    leftBefore effect env (start :: starts) (k + 1) = leftBefore effect (effect start) starts k := by
  cases k <;> rfl

/-- Only the first run sees the variables as they were before. -/
theorem leftBefore_congr {effect : Env → Env} {env env' : Env} {x : String} (h : env x = env' x)
    (starts : List Env) (k : Nat) :
    leftBefore effect env starts k x = leftBefore effect env' starts k x := by
  cases k with
  | zero => exact h
  | succ k => rfl

/-- How the callback is started for the element at place `k` of the array `A`. The parameters are what
`forEach` passes, the variables of the loop are the place and the length, and the other variables are as
`before`. -/
structure Started (params : List Identifier) (A : List Value) (index length : String) (k : Nat)
    (before start : Env) : Prop where
  arguments : ∀ (j : Nat) (p : Identifier), params[j]? = some p → start p.name = argumentAt A k j
  place : start index = .number k
  size : start length = .number A.length
  others : ∀ x, x ∉ params.map (·.name) → x ≠ index → x ≠ length → start x = before x

namespace ForEach

section

variable {each : ForEach} {r index length : String} {span : Span} {A : List Value} {k : Nat}
  {env : Env}

theorem goesOn_test (each : ForEach) (place : env index = .number k) (size : env length = .number A.length) :
    goesOn (each.toLoop index length).test env = some (decide (k < A.length), env) := by
  simp [toLoop, goesOn, evaluate, Expr.ident, Identifier.synthesized, place, size, Value.less?]

theorem turn_update (each : ForEach) (length : String) (place : env index = .number k) :
    turn (each.toLoop index length).update env = some (env.set index (.number (k + 1 : Nat))) := by
  simp [toLoop, turn, evaluate, Expr.ident, Identifier.synthesized, place]

theorem enter_init (receiver : each.receiver = .identifier ⟨span, r⟩) (array : env r = .array A)
    (ne : r ≠ index) :
    enter (each.toLoop index length).init env =
      some ((env.set index (.number (0 : Nat))).set length (.number A.length)) := by
  have finite : (Binary64.zero false).isFinite = true := by decide
  simp [toLoop, enter, varOf, variableOf, declare, property, Expr.zero, Expr.ident,
    Identifier.synthesized, evaluate, finite, Binary64.value_zero, receiver, ne, array, Value.field?]

variable (receiver : each.receiver = .identifier ⟨span, r⟩)
  (apart : (r :: index :: length :: each.params.map (·.name)).Nodup) (effect : Env → Env)
include receiver apart

/-- The body of the loop starts the callback once. -/
theorem run_body (array : env r = .array A) (place : env index = .number k)
    (size : env length = .number A.length) :
    ∃ start, Run ⟨each.body.body, effect⟩ (.stmt (each.toLoop index length).body) env [start]
        (effect start) ∧
      start r = .array A ∧ Started each.params A index length k env start := by
  simp only [List.nodup_cons, List.mem_cons, not_or] at apart
  obtain ⟨⟨-, -, hr⟩, ⟨-, hi⟩, hl, distinct⟩ := apart
  obtain ⟨start, run, params, frame⟩ := run_bindings ⟨each.body.body, effect⟩ span each.params 0
    distinct hr hi array place
  rw [← receiver] at run
  refine ⟨start, .block run, by rw [frame r hr, array], fun j p hp => ?_, by rw [frame index hi, place],
    by rw [frame length hl, size], fun x hx _ _ => frame x hx⟩
  rw [params j p hp, Nat.zero_add]

/-- The rounds from place `k` on, when `rest` are left. -/
theorem run_rounds (keeps : ∀ env, ∀ x ∈ [r, index, length], effect env x = env x) (rest : Nat)
    (hk : k + rest = A.length) (array : env r = .array A) (place : env index = .number k)
    (size : env length = .number A.length) :
    ∃ starts final, Run ⟨each.body.body, effect⟩ (.rounds (each.toLoop index length)) env starts final ∧
      starts.length = rest ∧ ∀ j start, starts[j]? = some start →
        Started each.params A index length (k + j) (leftBefore effect env starts j) start := by
  induction rest generalizing k env with
  | zero =>
    refine ⟨[], env, .stop ?_, rfl, by simp⟩
    rw [goesOn_test each place size, decide_eq_false (by omega)]
  | succ rest ih =>
    obtain ⟨start, body, array₁, started⟩ := run_body receiver apart effect array place size
    have test : goesOn (each.toLoop index length).test env = some (true, env) := by
      rw [goesOn_test each place size, decide_eq_true (by omega)]
    have kept : ∀ x ∈ [r, index, length], effect start x = start x := keeps start
    have turned := turn_update each length ((kept index (by simp)).trans started.place)
    -- the variables of the loop when it tests again
    simp only [List.nodup_cons, List.mem_cons, not_or] at apart
    have array₂ : (effect start).set index (.number (k + 1 : Nat)) r = .array A := by
      rw [Env.set_of_ne apart.1.1, kept r (by simp), array₁]
    have size₂ : (effect start).set index (.number (k + 1 : Nat)) length = .number A.length := by
      rw [Env.set_of_ne (Ne.symm apart.2.1.1), kept length (by simp), started.size]
    obtain ⟨starts, final, run, count, all⟩ := ih (by omega) array₂ (Env.set_self ..) size₂
    refine ⟨start :: starts, final, .round test body turned run, by simp [count], ?_⟩
    intro j later hj
    cases j with
    | zero =>
      obtain rfl : start = later := by simpa using hj
      exact started
    | succ j =>
      have := all j later (by simpa using hj)
      rw [Nat.add_assoc, Nat.add_comm 1 j] at this
      refine ⟨this.arguments, this.place, this.size, fun x hx hi hl => ?_⟩
      rw [this.others x hx hi hl, leftBefore_cons]
      exact leftBefore_congr (Env.set_of_ne hi) starts j

end

/-- The loop does what `forEach` does. Let the receiver be a variable that holds an array, let no two of
the names of the loop be the same, and let the callback change neither the receiver nor the variables of
the loop. Then the loop can be run, in one way only; it starts the callback once for each element, and
each time as `forEach` would, with the other variables as the callback left them. -/
theorem toLoop_iterates (each : ForEach) (r index length : String) (span : Span) (A : List Value)
    (effect : Env → Env) (env : Env)
    (receiver : each.receiver = .identifier ⟨span, r⟩) (array : env r = .array A)
    (apart : (r :: index :: length :: each.params.map (·.name)).Nodup)
    (keeps : ∀ env, ∀ x ∈ [r, index, length], effect env x = env x) :
    ∃ starts final,
      (∀ starts' final', Run ⟨each.body.body, effect⟩ (.stmt (.forLoop (each.toLoop index length))) env
        starts' final' ↔ starts' = starts ∧ final' = final) ∧
      starts.length = A.length ∧
      ∀ k start, starts[k]? = some start →
        Started each.params A index length k (leftBefore effect env starts k) start := by
  have names := apart
  simp only [List.nodup_cons, List.mem_cons, not_or] at names
  obtain ⟨⟨ri, rl, -⟩, ⟨il, -⟩, -⟩ := names
  let env₁ := (env.set index (.number (0 : Nat))).set length (.number A.length)
  have entered : enter (each.toLoop index length).init env = some env₁ := enter_init receiver array ri
  have array₁ : env₁ r = .array A := by
    simp only [env₁, Env.set_of_ne rl, Env.set_of_ne ri, array]
  have place₁ : env₁ index = .number (0 : Nat) := by
    simp only [env₁, Env.set_of_ne il, Env.set_self]
  obtain ⟨starts, final, rounds, count, all⟩ := run_rounds receiver apart effect keeps A.length
    (Nat.zero_add _) array₁ place₁ (Env.set_self ..)
  refine ⟨starts, final, fun starts' final' => ⟨fun run => ?_, ?_⟩, count, fun k start hk => ?_⟩
  · exact (Run.forLoop entered rounds).unique run
  · rintro ⟨rfl, rfl⟩
    exact .forLoop entered rounds
  · have := all k start hk
    rw [Nat.zero_add] at this
    refine ⟨this.arguments, this.place, this.size, fun x hx hi hl => ?_⟩
    rw [this.others x hx hi hl]
    exact leftBefore_congr (by simp only [env₁, Env.set_of_ne hl, Env.set_of_ne hi]) starts k

/-- A callback that keeps its first parameter in a variable and overwrites the parameter, over the array
`[true, 5]`: the second time the variable holds the first element. -/
theorem toLoop_iterates_pair :
    ∃ first second final,
      Run ⟨[], fun env => (env.set "seen" (env "x")).set "x" .undefined⟩
        (.stmt (.forLoop (toLoop ⟨Expr.ident "a",
          ["x", "i", "all", "none"].map Identifier.synthesized, ⟨Span.none, []⟩⟩ "$i1" "$len2")))
        (fun x => if x = "a" then .array [.boolean true, .number 5] else .undefined)
        [first, second] final ∧
      first "x" = .boolean true ∧ second "x" = .number 5 ∧ second "seen" = .boolean true ∧
      second "i" = .number (1 : Nat) ∧ second "none" = .undefined := by
  obtain ⟨starts, final, run, count, all⟩ := toLoop_iterates
    ⟨Expr.ident "a", ["x", "i", "all", "none"].map Identifier.synthesized, ⟨Span.none, []⟩⟩
    "a" "$i1" "$len2" Span.none [.boolean true, .number 5]
    (fun env => (env.set "seen" (env "x")).set "x" .undefined)
    (fun x => if x = "a" then .array [.boolean true, .number 5] else .undefined)
    rfl rfl (by decide) (by simp [Env.set])
  obtain ⟨first, second, rfl⟩ := List.length_eq_two.mp count
  have started₀ := all 0 first rfl
  have started₁ := all 1 second rfl
  have x₀ : first "x" = .boolean true := started₀.arguments 0 _ rfl
  refine ⟨first, second, final, (run _ _).mpr ⟨rfl, rfl⟩, x₀, started₁.arguments 0 _ rfl, ?_,
    started₁.arguments 1 _ rfl, started₁.arguments 3 _ rfl⟩
  rw [started₁.others "seen" (by decide) (by decide) (by decide)]
  simp [leftBefore, Env.set, x₀]

end ForEach

end IndexedLoop
