import IndexedLoop.Tree.Weight

/-!
# The `forEach` idiom

A statement `receiver.forEach(function (element, index, array) {…})` runs a function once for every
element of an array. `ForEach.ofStmt?` recognizes it: the callee is the property `forEach`, written
with a dot or as a string in brackets, the first argument is a function expression whose parameters
are plain names, nothing or `this` follows, and no `return` would leave the function. Then
`ForEach.toLoop` is an indexed loop that does the same.
-/

namespace IndexedLoop

mutual

/-- The statement can leave the function it stands in: it is or holds a `return` that belongs to no
function inside it. -/
def Stmt.returns : Stmt → Bool
  | .ret .. => true
  | .block ⟨_, body⟩ => anyReturns body
  | .forLoop ⟨_, _, _, _, body⟩ => body.returns
  | .whileLoop ⟨_, _, body⟩ => body.returns
  | .ifElse ⟨_, _, consequent, none⟩ => consequent.returns
  | .ifElse ⟨_, _, consequent, some alternate⟩ => consequent.returns || alternate.returns
  | _ => false

/-- One of the statements can leave the function they stand in. -/
def anyReturns : List Stmt → Bool
  | [] => false
  | s :: rest => s.returns || anyReturns rest

end

/-- The names, if all the expressions are names. -/
def identifiers? : List Expr → Option (List Identifier)
  | [] => some []
  | .identifier id :: rest => (identifiers? rest).map (id :: ·)
  | _ :: _ => none

/-- The parts of a `forEach` statement. -/
structure ForEach where
  receiver : Expr
  params : List Identifier
  body : Block

namespace ForEach

/-- A property is reached by the name `forEach`. -/
def isForEachName : Access → Expr → Bool
  | .dot, .identifier id => id.name == "forEach"
  | .bracket, .literal ⟨_, .string raw⟩ => raw == "forEach"
  | _, _ => false

/-- Nothing, or `this` alone. -/
def isThisArgument : List Expr → Bool
  | [] | [.this _] => true
  | _ => false

/-- The parts of a call, if it has the form of the idiom. -/
def ofCall? : (callee : Expr) → (arguments : List Expr) → Option ForEach
  | .member _ receiver property access, .function fn :: rest =>
    if isForEachName access property && isThisArgument rest && !anyReturns fn.body.body then
      (identifiers? fn.params).map fun params => ⟨receiver, params, fn.body⟩
    else none
  | _, _ => none

/-- The parts of an expression, if it is a call of the idiom. -/
def ofExpr? : Expr → Option ForEach
  | .call _ callee arguments => ofCall? callee arguments
  | _ => none

/-- The parts of a statement, if it is the idiom. -/
def ofStmt? : Stmt → Option ForEach
  | .expression _ expr => ofExpr? expr
  | _ => none

/-- A call of the idiom without the statements of its function. -/
def emptied : Expr → Expr
  | .call span callee (.function fn :: rest) =>
    .call span callee (.function { fn with body := default } :: rest)
  | e => e

/-! ## The loop -/

/-- `object.property` or `object[property]`, standing in no source text. -/
def property (object property : Expr) (access : Access) : Expr :=
  .member Span.none object property access

/-- A variable with an initial value. -/
def variableOf (name : String) (init : Expr) : Declarator :=
  ⟨Span.none, Identifier.synthesized name, some init⟩

/-- `var` with these variables. -/
def varOf (declarators : List Declarator) : Declaration :=
  ⟨Span.none, .var, declarators⟩

/-- What the `k`-th parameter is bound to: the element, the index, the array, and from then on
nothing. -/
def argument (receiver : Expr) (index : String) : Nat → Expr
  | 0 => property receiver (Expr.ident index) .bracket
  | 1 => Expr.ident index
  | 2 => receiver
  | _ => .unary Span.none .void Expr.zero

/-- The declarations that bind the parameters, the first of which is the `k`-th. -/
def bindings (receiver : Expr) (index : String) : (k : Nat) → List Identifier → List Stmt
  | _, [] => []
  | k, param :: rest =>
    .declaration (varOf [variableOf param.name (argument receiver index k)])
      :: bindings receiver index (k + 1) rest

/-- The indexed loop over the receiver, with the names of its two variables. The length is taken once,
and each round binds the parameters before the statements of the function. -/
def toLoop (each : ForEach) (index length : String) : ForLoop where
  span := Span.none
  init := some (.declaration (varOf
    [variableOf index Expr.zero,
     variableOf length (property each.receiver (Expr.ident "length") .dot)]))
  test := some (.binary Span.none .lt (Expr.ident index) (Expr.ident length))
  update := some (.update Span.none .increment false (Expr.ident index))
  body := .block ⟨each.body.span, bindings each.receiver index 0 each.params ++ each.body.body⟩

/-! ## The loop is lighter than the call -/

theorem weight_identifiers? {es : List Expr} {ids : List Identifier} (h : identifiers? es = some ids) :
    weightOfExprs es = 2 * ids.length := by
  induction es generalizing ids with
  | nil =>
    cases h
    rfl
  | cons e rest ih =>
    cases e with
    | identifier id =>
      simp only [identifiers?, Option.map_eq_some_iff] at h
      obtain ⟨tail, ht, rfl⟩ := h
      simp only [weightOfExprs, Expr.weight, List.length_cons, ih ht]
      omega
    | _ => cases h

theorem weight_bindings_rest (receiver : Expr) (index : String) (k : Nat) (ids : List Identifier) :
    weightOfStmts (bindings receiver index (k + 3) ids) = 6 * ids.length := by
  induction ids generalizing k with
  | nil => rfl
  | cons id rest ih =>
    have hrest : weightOfStmts (bindings receiver index (k + 3 + 1) rest) = 6 * rest.length :=
      Nat.add_right_comm k 1 3 ▸ ih (k + 1)
    simp only [bindings, argument, varOf, variableOf, weightOfStmts, Stmt.weight, Declaration.weight,
      weightOfDeclarators, weightOfOption, Expr.weight, Expr.zero, List.length_cons, hrest]
    omega

theorem weight_bindings (receiver : Expr) (index : String) (ids : List Identifier) :
    weightOfStmts (bindings receiver index 0 ids) ≤ 2 * receiver.weight + 6 * ids.length := by
  match ids with
  | [] => exact Nat.zero_le _
  | [_] =>
    simp only [bindings, argument, property, varOf, variableOf, weightOfStmts, Stmt.weight,
      Declaration.weight, weightOfDeclarators, weightOfOption, Expr.weight, Expr.ident,
      List.length_cons, List.length_nil]
    omega
  | [_, _] =>
    simp only [bindings, argument, property, varOf, variableOf, weightOfStmts, Stmt.weight,
      Declaration.weight, weightOfDeclarators, weightOfOption, Expr.weight, Expr.ident,
      List.length_cons, List.length_nil]
    omega
  | _ :: _ :: _ :: rest =>
    have := weight_bindings_rest receiver index 0 rest
    simp only [Nat.zero_add] at this
    simp only [bindings, argument, property, varOf, variableOf, weightOfStmts, Stmt.weight,
      Declaration.weight, weightOfDeclarators, weightOfOption, Expr.weight, Expr.ident,
      List.length_cons, Nat.zero_add, Nat.reduceAdd, this]
    omega

theorem weight_toLoop (each : ForEach) (index length : String) :
    (Stmt.forLoop (each.toLoop index length)).weight
      ≤ 20 + 3 * each.receiver.weight + 6 * each.params.length + each.body.weight := by
  have := weight_bindings each.receiver index each.params
  rw [Block.weight_eq]
  simp only [toLoop, property, varOf, variableOf, Stmt.weight, ForLoop.weight, Block.weight,
    weightOfForInit, Declaration.weight, weightOfDeclarators, weightOfOption, Expr.weight,
    Expr.ident, Expr.zero, weightOfStmts_append]
  omega

theorem weight_ofStmt? {s : Stmt} {each : ForEach} (h : ofStmt? s = some each) :
    20 + 4 * each.receiver.weight + 12 * each.params.length + each.body.weight ≤ s.weight := by
  cases s with
  | expression span expr =>
    simp only [ofStmt?] at h
    cases expr with
    | call _ callee arguments =>
      simp only [ofExpr?] at h
      unfold ofCall? at h
      split at h
      · split at h
        · rw [Option.map_eq_some_iff] at h
          obtain ⟨params, hp, rfl⟩ := h
          have hw := weight_identifiers? hp
          rename_i fn _ _
          simp only [Stmt.weight, Expr.weight, weightOfExprs, fn.weight_eq, hw]
          omega
        · cases h
      · cases h
    | _ => cases h
  | _ => cases h

/-- The loop weighs no more than the statement it stands for. -/
theorem weight_toLoop_le {s : Stmt} {each : ForEach} (h : ofStmt? s = some each)
    (index length : String) :
    (Stmt.forLoop (each.toLoop index length)).weight ≤ s.weight := by
  have h1 := weight_ofStmt? h
  have h2 := weight_toLoop each index length
  omega

end ForEach

end IndexedLoop
