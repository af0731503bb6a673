import IndexedLoop.Converter

/-!
# The idiom in full

What a statement looks like that the recognizer accepts, with all its parts (`ForEach.Written`), and what a
conversion does to a statement: nothing, or a loop in its place whose variables have numbered names
(`Conversion.convertStmt_cases`).
-/

namespace IndexedLoop

theorem identifiers?_eq_some_iff {es : List Expr} {ids : List Identifier} :
    identifiers? es = some ids ↔ es = ids.map Expr.identifier := by
  induction es generalizing ids with
  | nil => cases ids <;> simp [identifiers?]
  | cons e rest ih =>
    cases e with
    | identifier id =>
      cases ids with
      | nil => simp [identifiers?]
      | cons first ids =>
        simp only [identifiers?, Option.map_eq_some_iff, ih, List.map_cons, List.cons.injEq,
          Expr.identifier.injEq]
        constructor
        · rintro ⟨_, rest, e, rfl⟩
          exact ⟨e, rest⟩
        · rintro ⟨e, rest⟩
          exact ⟨ids, rest, e, rfl⟩
    | _ => cases ids <;> simp [identifiers?]

namespace ForEach

/-- The statement is the idiom with these parts: `receiver.forEach(function id(params) {body}, this)`, or
without `this`. -/
inductive Written : ForEach → Stmt → Prop
  | mk {span callSpan memberSpan fnSpan : Span} {id : Option Identifier} {receiver property : Expr}
    {access : Access} {params : List Identifier} {body : Block} {rest : List Expr}
    (name : isForEachName access property = true) (this : isThisArgument rest = true)
    (stays : anyReturns body.body = false) :
    Written ⟨receiver, params, body⟩
      (.expression span (.call callSpan (.member memberSpan receiver property access)
        (.function ⟨fnSpan, id, params.map .identifier, body⟩ :: rest)))

theorem ofStmt?_of_written {each : ForEach} {s : Stmt} (h : each.Written s) : ofStmt? s = some each := by
  cases h with
  | mk name this stays =>
    simp [ofStmt?, ofExpr?, ofCall?, name, this, stays, identifiers?_eq_some_iff.mpr rfl]

theorem written_of_ofStmt? {each : ForEach} {s : Stmt} (h : ofStmt? s = some each) : each.Written s := by
  cases s with
  | expression span expr =>
    cases expr with
    | call callSpan callee arguments =>
      simp only [ofStmt?, ofExpr?] at h
      unfold ofCall? at h
      split at h
      · rename_i fn rest
        split at h
        · rename_i accepted
          simp only [Bool.and_eq_true, Bool.not_eq_true'] at accepted
          obtain ⟨params, names, rfl⟩ := Option.map_eq_some_iff.mp h
          obtain ⟨fnSpan, id, _, body⟩ := fn
          obtain rfl := identifiers?_eq_some_iff.mp names
          exact .mk accepted.1.1 accepted.1.2 accepted.2
        · cases h
      · cases h
    | _ => cases h
  | _ => cases h

/-- The recognizer accepts the idiom and nothing else. -/
theorem ofStmt?_eq_some_iff {each : ForEach} {s : Stmt} : ofStmt? s = some each ↔ each.Written s :=
  ⟨written_of_ofStmt?, ofStmt?_of_written⟩

end ForEach

namespace Conversion

/-- A statement stays as it is, or it is the idiom and a loop with numbered names takes its place. -/
theorem convertStmt_cases (config : Config) (s : Stmt) (st : Conversion) :
    (convertStmt config s st).1 = s ∨
      ∃ (each : ForEach) (m n : Nat), each.Written s ∧ (convertStmt config s st).1 =
        .forLoop (each.toLoop (NameSupply.numbered config.indexStem m) (NameSupply.numbered config.lengthStem n)) := by
  unfold convertStmt
  split
  · exact .inl rfl
  · rename_i each accepted
    exact .inr ⟨each, _, _, ForEach.written_of_ofStmt? accepted, rfl⟩

end Conversion

end IndexedLoop
