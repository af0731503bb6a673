import IndexedLoop.Proofs.Leaves

/-!
# The forms of what is read

Not every tree can be read. A tree that was read from a source names what it accesses by a point, has numbers without
a sign, sequences of two expressions or more, declarations of a variable or more, and leaves no `else` to a branch
inside of the one that it belongs to (`Subtree.Formed`). The bodies of its strings may stand between double quotes.
They have no other double quotes, unless a comment stands in the string at the start of a later line: there a double
quote remains as it is.
-/

namespace IndexedLoop.Reading

variable {file : String} {bytes : List UInt8} {r : Reading}

/-- Every piece of a program that was read has the shape of what is read, with bodies of double-quoted literals as
its strings. -/
theorem formed_ofBytes (h : ofBytes? file bytes = some r) {t : Subtree}
    (within : (Subtree.program r.program).Within t) : t.Formed Quoted.IsBody := by
  obtain ⟨p, read, rfl⟩ := Option.map_eq_some_iff.mp h
  exact (formed_ofSurface (Surface.Program.read_lies read) within).imp fun _ content => content.isBody

/-- The bodies of the strings in a program, in the order of a visit. -/
def strings (r : Reading) : List String :=
  r.program.events.filterMap fun
    | .expr (.literal ⟨_, .string raw⟩) => some raw
    | _ => none

/-- A source with a branch inside of a branch, a parameter that is no name, a big integer and an infinite number, and
with double quotes in a single-quoted string and in the comment of a double-quoted one. -/
def exampleForms : String :=
  "if (a) while (b) \x7b if (c) d(1n, 1e999); \x7d else e.f[0, 'a\"b'];\n" ++
    "function g(h, [i]) \x7b return \x7bj: function () \x7b\x7d, \"k\\\"\n// \"\n\": .5\x7d; \x7d"

theorem formed_ofBytes_exampleForms :
    (ofBytes? "a.js" (Utf8.encode exampleForms)).map (fun r => (r.isComplete, r.strings)) =
      some (true, ["a\\\"b", "k\\\"\n// \"\n"]) ∧
    ∃ r, ofBytes? "a.js" (Utf8.encode exampleForms) = some r ∧
      ∀ t, (Subtree.program r.program).Within t → t.Formed Quoted.IsBody := by
  have accepted : (ofBytes? "a.js" (Utf8.encode exampleForms)).isSome = true := by decide +kernel
  obtain ⟨r, read⟩ := Option.isSome_iff_exists.mp accepted
  exact ⟨by decide +kernel, r, read, fun _ within => formed_ofBytes read within⟩

/-- A string with a comment in it. -/
def commentText : String := "\"a\n// \"\n\";"

/-- In a comment of a string a double quote is not escaped. -/
theorem not_escaped_commentText : ∃ r, ofBytes? "" (Utf8.encode commentText) = some r ∧ r.isComplete = true ∧
    ¬ ∀ t, (Subtree.program r.program).Within t → t.Formed fun raw =>
      Quoted.endsEscapes raw.toList = true ∧ Quoted.escapesQuotes raw.toList = true := by
  have read : (ofBytes? "" (Utf8.encode commentText)).map (fun r => (r.isComplete, r.strings)) =
      some (true, ["a\n// \"\n"]) := by decide +kernel
  obtain ⟨r, read, found⟩ := Option.map_eq_some_iff.mp read
  obtain ⟨complete, strings⟩ := Prod.mk.inj found
  refine ⟨r, read, complete, fun formed => ?_⟩
  have mem : "a\n// \"\n" ∈ r.strings := by rw [strings]; exact List.mem_singleton_self _
  obtain ⟨event, visited, raw⟩ := List.mem_filterMap.mp mem
  split at raw
  · next span _ =>
    cases raw
    obtain ⟨t, within, here⟩ := (stands_ofBytes read).visited visited
    obtain rfl := Subtree.eq_of_visits_literal here
    exact absurd (formed _ within).2 (by decide)
  · cases raw

end IndexedLoop.Reading
