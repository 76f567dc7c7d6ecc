import JavaCallGraph.Proofs.UnitOrder

/-!
# Units that declare nothing new

A unit whose type names are all declared by earlier units adds neither types nor bodies, whatever
its imports, bodies and anonymous classes are. With it or without it, the analysis fails in the
same way or finds the same graph.
-/

namespace JavaCallGraph

/-- Every type name of the unit is declared by one of the units before it. -/
def CompilationUnit.Repeats (before : List CompilationUnit) (u : CompilationUnit) : Prop :=
  ∀ d ∈ u.types, ∃ v ∈ before, ∃ e ∈ v.types, e.name = d.name

def CompilationUnit.declares (name : String) (u : CompilationUnit) : Bool :=
  u.types.any (·.name = name)

namespace Declarations

open CompilationUnit (Repeats declares)

variable {units before after : List CompilationUnit} {u : CompilationUnit} {name : String}

theorem isSome_inUnit (name : String) (u : CompilationUnit) :
    (inUnit name u).isSome = declares name u := by
  rw [inUnit, Option.isSome_map, Bool.eq_iff_iff, List.find?_isSome, declares, List.any_eq_true]

/-- The declaration that counts stands in the first unit that declares the name. -/
theorem getElem?_unit_of_getElem?_ofUnits {source : SourceType}
    (h : (ofUnits units)[name]? = some source) :
    units[source.ref.unit]? = units.find? (declares name) := by
  obtain ⟨hmem, rfl⟩ := of_getElem?_ofUnits h
  obtain ⟨u, hu, hdecl, -⟩ := mem_listed.mp hmem
  obtain ⟨hlt, hget⟩ := List.getElem?_eq_some_iff.mp hu
  rw [hu, eq_comm, List.find?_eq_some_iff_getElem]
  refine ⟨?_, source.ref.unit, hlt, hget, fun j hj => ?_⟩
  · exact List.any_eq_true.mpr ⟨_, List.mem_of_getElem? hdecl, by simp⟩
  · have hjlt : j < units.length := hj.trans hlt
    rw [Bool.not_eq_true', Bool.eq_false_iff]
    intro hdeclares
    obtain ⟨d, hd, hname⟩ := List.any_eq_true.mp hdeclares
    obtain ⟨i, hi⟩ := List.mem_iff_getElem?.mp hd
    have hlisted : (⟨⟨j, i⟩, .ofUnit units[j], d⟩ : SourceType) ∈ listed units :=
      mem_listed.mpr ⟨units[j], List.getElem?_eq_getElem hjlt, hi, rfl⟩
    have hle := unit_le_of_getElem?_ofUnits h hlisted (by simpa using hname)
    exact absurd hj (Nat.not_lt.mpr hle)

theorem exists_declares_of_repeats (h : Repeats before u) (hname : declares name u) :
    ∃ v ∈ before, declares name v := by
  obtain ⟨d, hd, hdname⟩ := List.any_eq_true.mp hname
  obtain ⟨v, hv, e, he, heq⟩ := h d hd
  refine ⟨v, hv, List.any_eq_true.mpr ⟨e, he, ?_⟩⟩
  rw [heq]
  exact hdname

/-- A search for the unit of a name never gets to a unit that repeats earlier ones. -/
theorem find?_declares_insert (h : Repeats before u) (after : List CompilationUnit)
    (name : String) :
    (before ++ u :: after).find? (declares name) = (before ++ after).find? (declares name) := by
  rw [List.find?_append, List.find?_append, List.find?_cons]
  cases hname : declares name u with
  | false => rfl
  | true =>
    obtain ⟨v, hv, hvname⟩ := exists_declares_of_repeats h hname
    obtain ⟨w, hw⟩ := Option.isSome_iff_exists.mp (List.find?_isSome.mpr ⟨v, hv, hvname⟩)
    rw [hw, Option.some_or, Option.some_or]

theorem anywhere_ofUnits_insert (h : Repeats before u) (after : List CompilationUnit) :
    (ofUnits (before ++ u :: after)).anywhere = (ofUnits (before ++ after)).anywhere := by
  apply Std.ExtTreeMap.ext_getElem?
  intro name
  rw [getElem?_anywhere_ofUnits, getElem?_anywhere_ofUnits, List.findSome?_append,
    List.findSome?_append, List.findSome?_cons]
  cases hu : inUnit name u with
  | none => rfl
  | some source =>
    have hname : declares name u := by rw [← isSome_inUnit, hu, Option.isSome_some]
    obtain ⟨v, hv, hvname⟩ := exists_declares_of_repeats h hname
    obtain ⟨first, hfirst⟩ : ∃ first, before.findSome? (inUnit name) = some first := by
      apply Option.isSome_iff_exists.mp
      exact List.findSome?_isSome_iff.mpr ⟨v, hv, by rw [isSome_inUnit, hvname]⟩
    rw [hfirst, Option.some_or, Option.some_or]

end Declarations

/-- The outcome of a run that has read one more unit, with or without syntax errors, and found
nothing in it. -/
def Outcome.countUnit (outcome : Outcome) (u : CompilationUnit) : Outcome :=
  { outcome with stats := { outcome.stats with
      units := outcome.stats.units + 1
      unitsFailed := outcome.stats.unitsFailed + if u.hasErrors then 1 else 0 } }

namespace Analysis

open CompilationUnit (Repeats)

variable {before : List CompilationUnit} {u : CompilationUnit}

/-- A unit that repeats type names of earlier units is inert. Behind all other units, where `after`
is empty, and in front of some, it changes neither the error nor the graph, nor any figure but the
number of units. -/
theorem ofUnits_insert_of_repeats (h : Repeats before u) (after : List CompilationUnit)
    (filesSeen : Nat) (library : Library) (options : AnalysisOptions) :
    ofUnits filesSeen (before ++ u :: after) library options =
      (ofUnits filesSeen (before ++ after) library options).map (·.countUnit u) := by
  have hdecls := Declarations.anywhere_ofUnits_insert h after
  have hstand (name : String) (source source' : SourceType)
      (hs : (Declarations.ofUnits (before ++ u :: after))[name]? = some source)
      (hs' : (Declarations.ofUnits (before ++ after))[name]? = some source') :
      (before ++ u :: after)[source.ref.unit]? = (before ++ after)[source'.ref.unit]? := by
    rw [Declarations.getElem?_unit_of_getElem?_ofUnits hs,
      Declarations.getElem?_unit_of_getElem?_ofUnits hs', Declarations.find?_declares_insert h]
  unfold ofUnits
  rcases Program.build_error_or_ok library options.cyclePolicy hdecls with
    ⟨e, hp, hp'⟩ | ⟨p, p', hp, hp'⟩
  · rw [hp, hp']
    rfl
  · have hreordered := Program.reordered_of_unit_eq hdecls hstand hp hp'
    have hlength : (before ++ u :: after).length = (before ++ after).length + 1 := by
      rw [List.length_append, List.length_append, List.length_cons, Nat.add_assoc]
    have hfailed : (before ++ u :: after).countP (·.hasErrors) =
        (before ++ after).countP (·.hasErrors) + if u.hasErrors then 1 else 0 := by
      rw [List.countP_append, List.countP_append, List.countP_cons, Nat.add_assoc]
    rw [hp, hp']
    change Except.ok _ = Except.ok _
    rw [hreordered.callEdges_eq, hreordered.roots_eq, hreordered.sourceTypeCount_eq,
      hreordered.bodyCount_eq, hlength, hfailed]
    rfl

section Repeated

def repeatingUnit : CompilationUnit :=
  .plain [{ TypeDecl.plain "B" none [.plain "f" [] "void"
      [.expr (.call (.expr (.new (.named "A") [] none 1)) "m" [] 1)]] with
    fields := [⟨"x", .named "B", true, some (.new (.named "B") [] none 1), 1⟩] }]

/-- On its own the unit has an entry point; behind a unit that declares `B` it has no effect. -/
theorem ofUnits_insert_of_repeats_last : ∃ outcome,
    ofUnits 3 [callingUnit, calledUnit] {} {} = .ok outcome ∧
    ofUnits 3 [callingUnit, calledUnit, repeatingUnit] {} {} =
      .ok (outcome.countUnit repeatingUnit) ∧
    outcome.stats.roots = 0 ∧
    ∃ other, ofUnits 3 [callingUnit, repeatingUnit] {} {} = .ok other ∧ other.stats.roots = 1 := by
  have hrepeats : Repeats [callingUnit, calledUnit] repeatingUnit := by
    intro d hd
    rw [List.mem_singleton.mp hd]
    exact ⟨calledUnit, by simp, _, List.mem_singleton.mpr rfl, rfl⟩
  obtain ⟨outcome, houtcome, hroots⟩ := exists_ok_of_any
    (ofUnits 3 [callingUnit, calledUnit] {} {}) (fun outcome => decide (outcome.stats.roots = 0))
    (by decide +kernel)
  obtain ⟨other, hother, hotherRoots⟩ := exists_ok_of_any
    (ofUnits 3 [callingUnit, repeatingUnit] {} {}) (fun outcome => decide (outcome.stats.roots = 1))
    (by decide +kernel)
  have hinsert := ofUnits_insert_of_repeats hrepeats [] 3 {} {}
  refine ⟨outcome, houtcome, ?_, of_decide_eq_true hroots, other, hother,
    of_decide_eq_true hotherRoots⟩
  rw [List.append_nil, houtcome] at hinsert
  exact hinsert

end Repeated

end Analysis

end JavaCallGraph
