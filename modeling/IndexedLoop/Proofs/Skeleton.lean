import IndexedLoop.Proofs.FreshNames
import IndexedLoop.Proofs.Relabel

/-!
# What a conversion makes, up to names

Everything that a converter carries along shows in the names of its loops and nowhere else. For each program
there is one `Skeleton`, a tree with pairs of holes in the heads of the loops that are made, and what any
converter gives is this skeleton with the names that it draws in the holes (`Converter.convert_eq_fill`). If no
name that could be drawn is reserved, the names are known too (`Config.naming_of_free`).
-/

namespace IndexedLoop

open NameSupply (numbered)

/-! ## Names drawn in pairs -/

namespace NameSupply

/-- If no name with this stem is reserved, a draw takes the next number. -/
theorem draw_of_free {reserved : List String} {stem : String} (free : ∀ n, numbered stem n ∉ reserved)
    (n : Nat) : draw ⟨n, reserved⟩ stem = (numbered stem (n + 1), ⟨n + 1, reserved⟩) := by
  have next : firstFree reserved stem reserved.length (n + 1) = n + 1 := by
    cases reserved.length with
    | zero => rfl
    | succ tries => rw [firstFree, if_neg (free _)]
  simp only [draw, next]

end NameSupply

namespace Config

/-- The names of the next loop, and the supply behind them. -/
def drawPair (config : Config) (s : NameSupply) : (String × String) × NameSupply :=
  let index := s.draw config.indexStem
  let length := index.2.draw config.lengthStem
  ((index.1, length.1), length.2)

/-- The supply after `k` pairs. -/
def supplyAt (config : Config) (s : NameSupply) : Nat → NameSupply
  | 0 => s
  | k + 1 => (config.drawPair (config.supplyAt s k)).2

/-- The pairs of names that are drawn from a supply. -/
def naming (config : Config) (s : NameSupply) : Naming := fun k => (config.drawPair (config.supplyAt s k)).1

theorem reserved_supplyAt (config : Config) (s : NameSupply) (k : Nat) :
    (config.supplyAt s k).reserved = s.reserved := by
  induction k with
  | zero => rfl
  | succ k ih => exact ih

/-- A name that is drawn is not reserved. -/
theorem naming_not_mem (config : Config) (s : NameSupply) (k : Nat) :
    (config.naming s k).1 ∉ s.reserved ∧ (config.naming s k).2 ∉ s.reserved := by
  rw [← config.reserved_supplyAt s k]
  exact ⟨(config.supplyAt s k).draw_not_mem _, ((config.supplyAt s k).draw _).2.draw_not_mem _⟩

section Free

variable {config : Config} {reserved : List String} (index : ∀ n, numbered config.indexStem n ∉ reserved)
  (length : ∀ n, numbered config.lengthStem n ∉ reserved)
include index length

theorem drawPair_of_free (n : Nat) :
    config.drawPair ⟨n, reserved⟩ =
      ((numbered config.indexStem (n + 1), numbered config.lengthStem (n + 2)), ⟨n + 2, reserved⟩) := by
  simp only [drawPair, NameSupply.draw_of_free index, NameSupply.draw_of_free length]

/-- If no name is reserved, every pair takes the next two numbers. -/
theorem supplyAt_of_free (n k : Nat) : config.supplyAt ⟨n, reserved⟩ k = ⟨n + 2 * k, reserved⟩ := by
  induction k with
  | zero => rfl
  | succ k ih => rw [supplyAt, ih, drawPair_of_free index length, Nat.mul_succ, ← Nat.add_assoc]

theorem naming_of_free (n k : Nat) :
    config.naming ⟨n, reserved⟩ k =
      (numbered config.indexStem (n + 2 * k + 1), numbered config.lengthStem (n + 2 * k + 2)) := by
  rw [naming, supplyAt_of_free index length, drawPair_of_free index length]

end Free

end Config

namespace Conversion

/-- The conversion has drawn `k` pairs from the supply with which it started. -/
structure Drew (config : Config) (start : Conversion) (k : Nat) (st : Conversion × List String) : Prop where
  supply : st.1.names = config.supplyAt start.names k
  converted : st.1.converted = start.converted + k
  written : st.2 = ((config.naming start.names).firstPairs k).flatMap bothNames

/-- One statement is converted in the same way with the names that are drawn and with the names given in
advance. -/
theorem Drew.step {config : Config} {start : Conversion} {k : Nat} {st : Conversion × List String}
    (h : Drew config start k st) (s : Stmt) :
    ((config.naming start.names).convertStmt s k).1 = ((recording config).stmt s st).1 ∧
      Drew config start ((config.naming start.names).convertStmt s k).2 ((recording config).stmt s st).2 := by
  obtain ⟨st, written⟩ := st
  simp only [recording]
  unfold Naming.convertStmt convertStmt drawnBy
  cases ForEach.ofStmt? s with
  | none => exact ⟨rfl, by simpa using h⟩
  | some each =>
    have pair : config.naming start.names k = (config.drawPair st.names).1 := by rw [h.supply, Config.naming]
    refine ⟨by rw [pair]; rfl, ?_, ?_, ?_⟩
    · rw [Config.supplyAt, ← h.supply]
      rfl
    · rw [← Nat.add_assoc, ← h.converted]
    · rw [Naming.firstPairs_succ, List.flatMap_append, ← h.written, pair]
      rfl

/-- Drawing names on the way is the same as giving the names in advance that a supply will give. -/
theorem walkStmts_naming (config : Config) (ss : List Stmt) (st : Conversion) :
    (walkStmts (config.naming st.names).hooks ss 0).1 = (walkStmts (recording config) ss (st, [])).1 ∧
      Drew config st (walkStmts (config.naming st.names).hooks ss 0).2
        (walkStmts (recording config) ss (st, [])).2 := by
  have closed : (Law.beside (config.naming st.names).hooks (Drew config st)).Closed (recording config).stmt :=
    Law.beside_closed (Hooks.onStatements_idle _ _) fun s _ _ h => h.step s
  exact (closed.holds (Hooks.onStatements_idle _ _)).stmts ss (st, []) 0 ⟨rfl, rfl, rfl⟩

end Conversion

/-! ## Variables of loops are mentioned -/

/-- A visit meets the variables of every loop that it meets. -/
def LoopsMet (events : List Event) : Prop := ∀ l ∈ loopsOf events, ∀ x ∈ l.declared, Meets x events

namespace LoopsMet

variable {xs ys : List Event} {event : Event}

theorem append (hx : LoopsMet xs) (hy : LoopsMet ys) : LoopsMet (xs ++ ys) := by
  intro l hl x declared
  rw [loopsOf_append, List.mem_append] at hl
  rw [meets_append]
  exact hl.imp (hx l · x declared) (hy l · x declared)

theorem cons (other : event.loop? = none) (h : LoopsMet xs) : LoopsMet (event :: xs) := by
  intro l hl x declared
  rw [loopsOf_cons, other, Option.toList_none, List.nil_append] at hl
  obtain ⟨id, mem, e⟩ := h l hl x declared
  exact ⟨id, List.mem_cons_of_mem _ mem, e⟩

theorem loop {l : ForLoop} (own : ∀ x ∈ l.declared, Meets x xs) (h : LoopsMet xs) :
    LoopsMet (.forLoop l :: xs) := by
  intro l' hl x declared
  rw [loopsOf_cons, Event.loop?, Option.toList_some, List.singleton_append, List.mem_cons] at hl
  rw [meets_other (by simp)]
  rcases hl with rfl | hl
  · exact own x declared
  · exact h l' hl x declared

theorem nil : LoopsMet [] := by simp [LoopsMet]

theorem identifiers (id : Option Identifier) : LoopsMet (id.toList.map .identifier) := by
  simp [LoopsMet]

end LoopsMet

theorem meets_declaredIn {init : Option ForInit} {x : String} (h : x ∈ declaredIn init) :
    Meets x (eventsOfForInit init) := by
  match init with
  | none | some (.expression _) => simp [declaredIn] at h
  | some (.declaration ⟨_, _, declarators⟩) =>
    rw [meets_eventsOfForInit, MentionedInForInit, Declaration.Mentions]
    simp only [declaredIn] at h
    induction declarators with
    | nil => simp at h
    | cons d rest ih =>
      obtain ⟨_, id, _⟩ := d
      rw [MentionedInDeclarators]
      rcases List.mem_cons.mp h with rfl | h
      · exact .inl rfl
      · exact .inr (.inr (ih h))

mutual

theorem Expr.loopsMet : (e : Expr) → LoopsMet e.events
  | .assignment _ _ left right | .binary _ _ left right => (left.loopsMet.append right.loopsMet).cons rfl
  | .unary _ _ argument | .update _ _ _ argument => argument.loopsMet.cons rfl
  | .sequence _ expressions => (loopsMetExprs expressions).cons rfl
  | .function ⟨_, id, params, body⟩ =>
    ((((LoopsMet.identifiers id).append (loopsMetExprs params)).append body.loopsMet).cons rfl).cons rfl
  | .call _ callee arguments | .new _ callee arguments =>
    (callee.loopsMet.append (loopsMetExprs arguments)).cons rfl
  | .conditional _ test consequent alternate =>
    ((test.loopsMet.append consequent.loopsMet).append alternate.loopsMet).cons rfl
  | .member _ object property _ => (object.loopsMet.append property.loopsMet).cons rfl
  | .object _ properties => (loopsMetProperties properties).cons rfl
  | .array _ elements => (loopsMetElements elements).cons rfl
  | .this _ | .literal _ | .unknown _ => LoopsMet.nil.cons rfl
  | .identifier _ => (LoopsMet.nil.cons rfl).cons rfl

theorem loopsMetExprs : (es : List Expr) → LoopsMet (eventsOfExprs es)
  | [] => .nil
  | e :: rest => e.loopsMet.append (loopsMetExprs rest)

theorem loopsMetElements : (es : List (Option Expr)) → LoopsMet (eventsOfElements es)
  | [] => .nil
  | none :: rest => loopsMetElements rest
  | some e :: rest => e.loopsMet.append (loopsMetElements rest)

theorem loopsMetProperties : (ps : List Property) → LoopsMet (eventsOfProperties ps)
  | [] => .nil
  | ⟨_, key, value⟩ :: rest => (key.loopsMet.append value.loopsMet).append (loopsMetProperties rest)

theorem Block.loopsMet : (b : Block) → LoopsMet b.events
  | ⟨_, body⟩ => (loopsMetStmts body).cons rfl

theorem loopsMetStmts : (ss : List Stmt) → LoopsMet (eventsOfStmts ss)
  | [] => .nil
  | s :: rest => s.loopsMet.append (loopsMetStmts rest)

theorem Declaration.loopsMet : (d : Declaration) → LoopsMet d.events
  | ⟨_, _, declarators⟩ => (loopsMetDeclarators declarators).cons rfl

theorem loopsMetDeclarators : (ds : List Declarator) → LoopsMet (eventsOfDeclarators ds)
  | [] => .nil
  | ⟨_, _, init⟩ :: rest => (((loopsMetOption init).append (loopsMetDeclarators rest)).cons rfl).cons rfl

theorem loopsMetOption : (e : Option Expr) → LoopsMet (eventsOfOption e)
  | none => .nil
  | some e => e.loopsMet

theorem loopsMetForInit : (init : Option ForInit) → LoopsMet (eventsOfForInit init)
  | none => .nil
  | some (.declaration decl) => decl.loopsMet
  | some (.expression e) => e.loopsMet

theorem Stmt.loopsMet : (s : Stmt) → LoopsMet s.events
  | .declaration decl => decl.loopsMet.cons rfl
  | .functionDecl ⟨_, _, params, body⟩ =>
    ((((loopsMetExprs params).append body.loopsMet).cons rfl).cons rfl).cons rfl
  | .block b => b.loopsMet.cons rfl
  | .ret _ argument => (loopsMetOption argument).cons rfl
  | .forLoop ⟨_, init, test, update, body⟩ => by
    have inner := (((loopsMetForInit init).append (loopsMetOption test)).append
      (loopsMetOption update)).append body.loopsMet
    refine (inner.loop fun x declared => ?_).cons rfl
    simp only [meets_append]
    exact .inl (.inl (.inl (meets_declaredIn declared)))
  | .whileLoop ⟨_, test, body⟩ => ((test.loopsMet.append body.loopsMet).cons rfl).cons rfl
  | .ifElse ⟨_, test, consequent, none⟩ => ((test.loopsMet.append consequent.loopsMet).cons rfl).cons rfl
  | .ifElse ⟨_, test, consequent, some alternate⟩ =>
    (((test.loopsMet.append consequent.loopsMet).append alternate.loopsMet).cons rfl).cons rfl
  | .throw _ argument => argument.loopsMet.cons rfl
  | .expression _ expr => expr.loopsMet.cons rfl
  | .brk _ | .cont _ | .empty _ | .unknown _ => LoopsMet.nil.cons rfl

end

/-- The variables of the loops of a program occur in it. -/
theorem Program.mentions_of_declared {program : Program} {l : ForLoop} (hl : l ∈ loopsOf program.events)
    {x : String} (hx : x ∈ l.declared) : program.Mentions x :=
  (meets_eventsOfStmts x program.body).mp (loopsMetStmts program.body l hl x hx)

/-! ## Skeletons -/

/-- Puts the names of one list in place of those of another. -/
def assign (olds news : List String) (x : String) : String := ((olds.zip news).lookup x).getD x

theorem assign_of_not_mem {olds : List String} (news : List String) {x : String} (h : x ∉ olds) :
    assign olds news x = x := by
  have : (olds.zip news).lookup x = none := by
    rw [List.lookup_eq_none_iff]
    rintro ⟨a, b⟩ mem
    have : a ∈ olds := (List.of_mem_zip mem).1
    simpa using fun e : x = a => h (e ▸ this)
  rw [assign, this, Option.getD_none]

theorem assign_of_mem_zip {olds news : List String} (nodup : olds.Nodup) {x y : String}
    (mem : (x, y) ∈ olds.zip news) : assign olds news x = y := by
  induction olds generalizing news with
  | nil => simp at mem
  | cons old olds ih =>
    cases news with
    | nil => simp at mem
    | cons new news =>
      obtain ⟨notIn, nodup⟩ := List.nodup_cons.mp nodup
      rw [List.zip_cons_cons, List.mem_cons] at mem
      rcases mem with e | later
      · cases e
        simp [assign]
      · have other : (x == old) = false :=
          beq_eq_false_iff_ne.mpr fun e => notIn (e ▸ (List.of_mem_zip later).1)
        rw [assign, List.zip_cons_cons, List.lookup_cons, other]
        exact ih nodup later

/-- A name stays, or it gets a new one. -/
theorem assign_cases (olds news : List String) (x : String) :
    assign olds news x = x ∨ x ∈ olds ∧ assign olds news x ∈ news := by
  unfold assign
  cases h : (olds.zip news).lookup x with
  | none => exact .inl rfl
  | some y =>
    obtain ⟨before, after, e, -⟩ := List.lookup_eq_some_iff.mp h
    have mem : (x, y) ∈ olds.zip news := by simp [e]
    exact .inr (List.of_mem_zip mem)

/-- The names of the `k`-th pairs of two namings stand at the same places. -/
theorem Naming.zip_flatMap_firstPairs (names names' : Naming) (n : Nat) :
    ((names.firstPairs n).flatMap bothNames).zip ((names'.firstPairs n).flatMap bothNames) =
      (List.range n).flatMap fun k => [((names k).1, (names' k).1), ((names k).2, (names' k).2)] := by
  induction n with
  | zero => rfl
  | succ n ih =>
    have length : ((names.firstPairs n).flatMap bothNames).length =
        ((names'.firstPairs n).flatMap bothNames).length := by
      simp [firstPairs, bothNames, Function.comp_def]
    rw [firstPairs_succ, firstPairs_succ, List.flatMap_append, List.flatMap_append, List.zip_append length, ih,
      List.range_succ, List.flatMap_append]
    rfl

/-- Names of one naming in place of the names of another. -/
theorem Naming.assign_firstPairs {names : Naming} (names' : Naming) {n k : Nat}
    (nodup : ((names.firstPairs n).flatMap bothNames).Nodup) (hk : k < n) :
    (assign ((names.firstPairs n).flatMap bothNames) ((names'.firstPairs n).flatMap bothNames) (names k).1,
      assign ((names.firstPairs n).flatMap bothNames) ((names'.firstPairs n).flatMap bothNames) (names k).2) =
      names' k := by
  have mem {x y : String} (h : (x, y) ∈ [((names k).1, (names' k).1), ((names k).2, (names' k).2)]) :
      (x, y) ∈
        ((names.firstPairs n).flatMap bothNames).zip ((names'.firstPairs n).flatMap bothNames) := by
    rw [zip_flatMap_firstPairs]
    exact List.mem_flatMap.mpr ⟨k, List.mem_range.mpr hk, h⟩
  rw [assign_of_mem_zip nodup (mem (List.mem_cons_self ..)),
    assign_of_mem_zip nodup (mem (List.mem_cons_of_mem _ (List.mem_cons_self ..)))]

/-- What the conversions of a program have in common: a tree with pairs of names as holes. -/
structure Skeleton (source : Program) where
  tree : Program
  holes : List (String × String)
  /-- All the holes are different names. -/
  nodup : (holes.flatMap bothNames).Nodup
  /-- No hole is a name of the source. -/
  fresh : ∀ x ∈ holes.flatMap bothNames, ¬ source.Mentions x
  /-- The loops with holes have them in the order of a visit. -/
  preorder : List.Forall₂ ForLoop.Counts
    ((loopsOf tree.events).filter fun l => l.declared ∈ holes.map bothNames) holes

namespace Skeleton

variable {source : Program} (s : Skeleton source)

/-- The holes, one after the other. -/
def names : List String := s.holes.flatMap bothNames

/-- The skeleton with names in its holes. -/
def fill (names : List String) : Program := s.tree.relabel (.ofNames (assign s.names names))

/-- The loops with holes, in the order of a visit, with names in the holes. -/
def made (names : List String) : List ForLoop :=
  ((loopsOf s.tree.events).filter fun l => l.declared ∈ s.holes.map bothNames).map
    (ForLoop.relabel (.ofNames (assign s.names names)))

/-- A visit of the skeleton with names in its holes meets the loops that are made in their order. -/
theorem made_sublist (names : List String) : (s.made names).Sublist (loopsOf (s.fill names).events) := by
  have loops : loopsOf (s.fill names).events =
      (loopsOf s.tree.events).map (ForLoop.relabel (.ofNames (assign s.names names))) :=
    loops_relabelStmts _ s.tree.body
  rw [loops]
  exact List.filter_sublist.map _

theorem counts_made (names : List String) :
    List.Forall₂ ForLoop.Counts (s.made names)
      (s.holes.map fun hole => (assign s.names names hole.1, assign s.names names hole.2)) := by
  rw [made, List.forall₂_map_left_iff, List.forall₂_map_right_iff]
  exact s.preorder.imp fun _ _ h => h.relabel _ rfl

end Skeleton

/-! ## What a converter gives -/

namespace Converter

variable (c : Converter) (program : Program)

/-- The pairs of names that are drawn for a program. -/
def naming : Naming := c.config.naming (c.namesFor program)

theorem convert_fst :
    (c.convert program).1 = ⟨program.span, (walkStmts (c.naming program).hooks program.body 0).1⟩ := by
  have same := (Conversion.walkStmts_naming c.config program.body (c.start (.program program))).1
  rw [(Conversion.walkStmts_recording ..).1] at same
  exact congrArg (Program.mk program.span) same.symm

/-- What a conversion has drawn when it is done. -/
theorem drew_convert :
    Conversion.Drew c.config (c.start (.program program)) program.conversions
      (walkStmts (Conversion.recording c.config) program.body (c.start (.program program), [])).2 := by
  have drew := (Conversion.walkStmts_naming c.config program.body (c.start (.program program))).2
  rwa [walkStmts_count] at drew

theorem drawn_eq_flatMap :
    c.drawn (.program program) = ((c.naming program).firstPairs program.conversions).flatMap bothNames :=
  (c.drew_convert program).written

theorem converted_convert : (c.convert program).2.1.converted = c.converted + program.conversions := by
  have drew := (c.drew_convert program).converted
  rw [(Conversion.walkStmts_recording ..).2] at drew
  exact drew

theorem names_convert :
    (c.convert program).2.1.names = c.config.supplyAt (c.namesFor program) program.conversions := by
  have drew := (c.drew_convert program).supply
  rw [(Conversion.walkStmts_recording ..).2] at drew
  exact drew

theorem startsWith_of_drawn {request : Request} {x : String} (h : x ∈ c.drawn request) :
    x.startsWith "$" := by
  obtain ⟨stem, -, n, -, -, rfl⟩ := (c.drawn_request request).2.exists_number h
  exact NameSupply.startsWith_numbered stem n

end Converter

/-- The skeleton of a program: what a new converter makes of it, with the names that it draws as holes. -/
def Program.skeleton (program : Program) : Skeleton program where
  tree := ((Converter.new {}).convert program).1
  holes := ((Converter.new {}).naming program).firstPairs program.conversions
  nodup := by
    rw [← Converter.drawn_eq_flatMap]
    exact Converter.nodup_drawn (by decide) _
  fresh x hx := by
    rw [← Converter.drawn_eq_flatMap] at hx
    exact Converter.drawn_not_mentioned rfl program hx
  preorder := by
    rw [Converter.convert_fst]
    refine counts_walkStmts _ program.body fun l hl mem => ?_
    obtain ⟨hole, hhole, e⟩ := List.mem_map.mp mem
    have occurs : program.Mentions hole.1 := Program.mentions_of_declared hl (by simp [← e, bothNames])
    refine Converter.drawn_not_mentioned (c := .new {}) rfl program ?_ occurs
    rw [Converter.drawn_eq_flatMap]
    exact List.mem_flatMap.mpr ⟨hole, hhole, by simp [bothNames]⟩

theorem Program.names_skeleton (program : Program) :
    program.skeleton.names = (Converter.new {}).drawn (.program program) :=
  ((Converter.new {}).drawn_eq_flatMap program).symm

theorem Program.length_holes_skeleton (program : Program) :
    program.skeleton.holes.length = program.conversions := by
  simp [Program.skeleton, Naming.firstPairs]

namespace Converter

variable (c : Converter) (program : Program)

/-- Names in place of the holes of the skeleton are no names that a conversion looks at. -/
theorem unseen_assign :
    (Relabel.ofNames (assign program.skeleton.names (c.drawn (.program program)))).Unseen := by
  have kept {x : String} (h : x.startsWith "$" = false) : x ∉ program.skeleton.names := by
    rw [program.names_skeleton]
    intro mem
    rw [startsWith_of_drawn _ mem] at h
    cases h
  refine ⟨rfl, fun x => ?_, assign_of_not_mem _ (kept (by decide +kernel))⟩
  rw [Relabel.name_ofNames]
  rcases assign_cases program.skeleton.names (c.drawn (.program program)) x with e | ⟨old, new⟩
  · rw [e]
  · constructor
    · intro e
      rw [e] at new
      exact absurd (startsWith_of_drawn _ new) (by decide +kernel)
    · rintro rfl
      exact absurd old (kept (by decide +kernel))

/-- Every converter fills the skeleton with the names that it draws. -/
theorem convert_eq_fill : (c.convert program).1 = program.skeleton.fill (c.drawn (.program program)) := by
  let m := Relabel.ofNames (assign program.skeleton.names (c.drawn (.program program)))
  have source : relabelStmts m program.body = program.body := by
    refine relabelStmts_eq_self program.body fun x occurs => assign_of_not_mem _ fun mem => ?_
    exact program.skeleton.fresh x mem occurs
  have agrees : ((new {}).naming program).Agrees m (c.naming program) 0
      (walkStmts ((new {}).naming program).hooks program.body 0).2 := by
    intro k _ hk
    rw [walkStmts_count] at hk
    simp only [m, Relabel.name_ofNames, drawn_eq_flatMap c]
    exact (Naming.assign_firstPairs _ program.skeleton.nodup hk).symm
  have walk := walkStmts_relabel (c.unseen_assign program) program.body 0 agrees
  rw [source] at walk
  rw [convert_fst, walk, Skeleton.fill]
  simp only [Program.relabel, Program.skeleton, convert_fst]
  rfl

/-- The state of a converter shows in the names only. Each program has one skeleton, and every converter gives
this skeleton with the names that it draws in the holes, so it converts the same statements as any other. -/
theorem convert_fills_one_skeleton (program : Program) :
    ∃ s : Skeleton program, ∀ c : Converter,
      (c.convert program).1 = s.fill (c.drawn (.program program)) ∧
      (c.drawn (.program program)).length = 2 * s.holes.length ∧
      (c.convert program).2.1.converted = c.converted + s.holes.length := by
  refine ⟨program.skeleton, fun c => ⟨c.convert_eq_fill program, ?_, ?_⟩⟩
  · have count := (c.drawn_request (.program program)).1
    have converted : (c.serve (.program program)).converted = c.converted + program.conversions :=
      c.converted_convert program
    rw [program.length_holes_skeleton]
    omega
  · rw [program.length_holes_skeleton, c.converted_convert]

/-! ## The numbers of the loops -/

/-- The loops that are made of a program, in the order in which a visit of the result meets them. -/
def made : List ForLoop := program.skeleton.made (c.drawn (.program program))

theorem made_sublist_convert : (c.made program).Sublist (loopsOf (c.convert program).1.events) := by
  rw [convert_eq_fill]
  exact program.skeleton.made_sublist _

/-- The `k`-th loop has the `k`-th pair of names that is drawn. -/
theorem counts_made_convert :
    List.Forall₂ ForLoop.Counts (c.made program) ((c.naming program).firstPairs program.conversions) := by
  have counts := program.skeleton.counts_made (c.drawn (.program program))
  have pairs : (program.skeleton.holes.map fun hole =>
      (assign program.skeleton.names (c.drawn (.program program)) hole.1,
        assign program.skeleton.names (c.drawn (.program program)) hole.2)) =
      (c.naming program).firstPairs program.conversions := by
    rw [drawn_eq_flatMap]
    simp only [Program.skeleton, Naming.firstPairs, List.map_map]
    refine List.map_congr_left fun k hk => ?_
    exact Naming.assign_firstPairs _ program.skeleton.nodup (List.mem_range.mp hk)
  rwa [pairs] at counts

/-- A converter converts as many statements as can be told in advance, each copy of a receiver on its own. If no
name that it could draw is reserved, then of the loops that it makes, which are those with holes in the skeleton,
in the order in which a visit of the result meets them, the `k`-th from zero has the numbers `2 * k + 1` and
`2 * k + 2` above that with which it starts. -/
theorem loops_counted_and_numbered :
    (c.convert program).2.1.converted = c.converted + program.conversions ∧
    (c.config.scope = .perFile → (c.namesFor program).counter = 0) ∧
    ((∀ n, numbered c.config.indexStem n ∉ (c.namesFor program).reserved) →
      (∀ n, numbered c.config.lengthStem n ∉ (c.namesFor program).reserved) →
      (c.convert program).1 = program.skeleton.fill (c.drawn (.program program)) ∧
      (c.made program).Sublist (loopsOf (c.convert program).1.events) ∧
      List.Forall₂ ForLoop.Counts (c.made program)
        ((List.range program.conversions).map fun k =>
          (numbered c.config.indexStem ((c.namesFor program).counter + 2 * k + 1),
            numbered c.config.lengthStem ((c.namesFor program).counter + 2 * k + 2))) ∧
      (c.convert program).2.1.names.counter = (c.namesFor program).counter + 2 * program.conversions) := by
  refine ⟨c.converted_convert program, fun perFile => ?_, fun index length =>
    ⟨c.convert_eq_fill program, c.made_sublist_convert program, ?_, ?_⟩⟩
  · unfold namesFor
    rw [if_pos perFile]
    split <;> rfl
  · have counts := c.counts_made_convert program
    rw [Naming.firstPairs] at counts
    have names : c.naming program = fun k =>
        (numbered c.config.indexStem ((c.namesFor program).counter + 2 * k + 1),
          numbered c.config.lengthStem ((c.namesFor program).counter + 2 * k + 2)) :=
      funext (Config.naming_of_free index length (c.namesFor program).counter)
    rwa [names] at counts
  · rw [names_convert]
    exact congrArg NameSupply.counter
      (Config.supplyAt_of_free index length (c.namesFor program).counter program.conversions)

/-- A loop over what `f` gives, where a loop stands in the argument of `f` and another one in the function. -/
def exampleCopies : Program :=
  ⟨Span.none,
    [.expression Span.none (.call Span.none
      (.member Span.none
        (.call Span.none (Expr.ident "f")
          [.function ⟨Span.none, none, [], ⟨Span.none, [forEachOver "b" "y" []]⟩⟩])
        (Expr.ident "forEach") .dot)
      [.function ⟨Span.none, none, [Expr.ident "x", Expr.ident "i", Expr.ident "a"],
        ⟨Span.none, [forEachOver "x" "z" []]⟩⟩])]⟩

/-- A converter that has converted three statements and used the numbers up to 7. -/
def exampleConverter : Converter := ⟨{}, ⟨7, []⟩, 3⟩

/-- The receiver is copied three times, so five loops are made. -/
theorem loops_counted_and_numbered_exampleCopies :
    (∀ n, numbered "i" n ∉ (exampleConverter.namesFor exampleCopies).reserved) ∧
    (∀ n, numbered "len" n ∉ (exampleConverter.namesFor exampleCopies).reserved) ∧
    (exampleConverter.convert exampleCopies).2.1.converted = 8 ∧
    List.Forall₂ ForLoop.Counts (exampleConverter.made exampleCopies)
      [("$i8", "$len9"), ("$i10", "$len11"), ("$i12", "$len13"), ("$i14", "$len15"), ("$i16", "$len17")] ∧
    (exampleConverter.convert exampleCopies).2.1.names.counter = 17 := by
  have names : exampleConverter.namesFor exampleCopies = ⟨7, []⟩ := by cbv
  have count : exampleCopies.conversions = 5 := by cbv
  have index : ∀ n, numbered "i" n ∉ (exampleConverter.namesFor exampleCopies).reserved := by simp [names]
  have length : ∀ n, numbered "len" n ∉ (exampleConverter.namesFor exampleCopies).reserved := by simp [names]
  obtain ⟨converted, -, numbers⟩ := exampleConverter.loops_counted_and_numbered exampleCopies
  obtain ⟨-, -, counts, counter⟩ := numbers index length
  rw [count] at converted counts counter
  rw [names] at counts counter
  exact ⟨index, length, converted, counts, counter⟩

end Converter

end IndexedLoop
