import JavaCallGraph.Proofs.CyclePolicies

/-!
# The types that are reported on cycles

The search enters each type once, and it reports a type only if a loop of the path it is on runs
through that type. So whatever is reported lies on a cycle of reported types, and no cycle goes
unreported as a whole. A type of which every way back leads through a finished type is missed. It
hangs below a fork: a reported type with one supertype that is reported and another that is not.
-/

namespace JavaCallGraph

section Forks

variable {α : Type} {r : α → α → Prop} {marked : α → Prop} {a b : α}

/-- A path to something that is not marked either passes nothing marked at all, or leaves the last
marked thing on it at a fork. -/
theorem unmarked_or_exists_fork (h : Relation.TransGen r a b) (hb : ¬ marked b) :
    Relation.TransGen (fun x y => r x y ∧ ¬ marked x) a b ∨
      ∃ fork out, marked fork ∧ ¬ marked out ∧ r fork out ∧ Relation.ReflTransGen r a fork ∧
        Relation.ReflTransGen (fun x y => r x y ∧ ¬ marked x) out b := by
  induction h using Relation.TransGen.head_induction_on with
  | @single a hab =>
    by_cases ha : marked a
    · exact .inr ⟨a, b, ha, hb, hab, .refl, .refl⟩
    · exact .inl (.single ⟨hab, ha⟩)
  | @head a c hac _ ih =>
    rcases ih with hout | ⟨fork, out, hfork, hout, hedge, hto, hrest⟩
    · by_cases ha : marked a
      · obtain ⟨d, ⟨-, hc⟩, -⟩ := Relation.TransGen.head'_iff.mp hout
        exact .inr ⟨a, c, ha, hc, hac, .refl, hout.to_reflTransGen⟩
      · exact .inl (.head ⟨hac, ha⟩ hout)
    · exact .inr ⟨fork, out, hfork, hout, hedge, .head hac hto, hrest⟩

end Forks

namespace TypeTable

variable {table : TypeTable} {name : String}

/-- A reported type lies on a cycle of types that are all reported. -/
theorem onReportedCycle_of_mem_cyclic (hclosed : table.Closed) (h : name ∈ table.cyclic) :
    Relation.TransGen (fun a b => table.Extends a b ∧ a ∈ table.cyclic ∧ b ∈ table.cyclic)
      name name :=
  Relation.TransGen.mono (fun _ _ hedge => ⟨leads_iff.mp hedge.1, hedge.2⟩) _ _
    ((inv_search hclosed table.keys).cyclic name h)

/-- No cycle goes unreported as a whole. -/
theorem not_onUnreportedCycle (hclosed : table.Closed) (name : String) :
    ¬ Relation.TransGen (fun a b => table.Extends a b ∧ a ∉ table.cyclic) name name :=
  fun hcycle => acyclic_cut hclosed name
    (Relation.TransGen.mono (fun _ _ => extends_cut.mpr) _ _ hcycle)

/-- A type on a cycle is missed only below a fork on the same cycles. -/
theorem exists_fork_of_not_mem_cyclic (hclosed : table.Closed)
    (hcycle : Relation.TransGen table.Extends name name) (hname : name ∉ table.cyclic) :
    ∃ fork kept lost, fork ∈ table.cyclic ∧ kept ∈ table.cyclic ∧ lost ∉ table.cyclic ∧
      table.Extends fork kept ∧ table.Extends fork lost ∧
      Relation.ReflTransGen table.Extends kept fork ∧
      Relation.ReflTransGen (fun a b => table.Extends a b ∧ a ∉ table.cyclic) lost name ∧
      Relation.ReflTransGen table.Extends name fork := by
  obtain ⟨fork, lost, hfork, hlost, hedge, hback, hto⟩ :=
    (unmarked_or_exists_fork hcycle hname).resolve_left (not_onUnreportedCycle hclosed name)
  have hloop := onReportedCycle_of_mem_cyclic hclosed hfork
  obtain ⟨kept, ⟨hkeptEdge, -, hkept⟩, hrest⟩ := Relation.TransGen.head'_iff.mp hloop
  exact ⟨fork, kept, lost, hfork, hkept, hlost, hkeptEdge, hedge,
    Relation.ReflTransGen.mono (fun _ _ h => h.1) _ _ hrest, hto, hback⟩

end TypeTable

namespace Hierarchy

def reported (nodes : List TypeNode) : List String := (TypeTable.ofNodes nodes).cyclic.toList

theorem mem_reported {nodes : List TypeNode} {name : String} :
    name ∈ reported nodes ↔ name ∈ (TypeTable.ofNodes nodes).cyclic := by
  rw [reported, Std.ExtTreeSet.mem_toList]

theorem isEmpty_reported (nodes : List TypeNode) :
    (reported nodes).isEmpty = (TypeTable.ofNodes nodes).cyclic.isEmpty :=
  Std.ExtTreeSet.isEmpty_toList

theorem build_fail_eq_reported (nodes : List TypeNode) :
    build nodes .fail =
      if (reported nodes).isEmpty then build nodes .degrade
      else .error (.hierarchyCycle (reported nodes)) := by
  rw [isEmpty_reported, build_fail]
  rfl

theorem get?_of_build_degrade {nodes : List TypeNode} {h : Hierarchy}
    (hb : build nodes .degrade = .ok h) {name : String} {declared : TypeNode}
    (hlast : TypeNode.last? nodes name = some declared) :
    h.get? name = some (if name ∈ reported nodes then
      declared.withoutSelfEdges.withoutSupertypes else declared.withoutSelfEdges) := by
  obtain rfl := build_eq_ok hb
  change ((TypeTable.ofNodes nodes).cut (TypeTable.ofNodes nodes).cyclic)[name]? = _
  rw [TypeTable.cut, Std.ExtTreeMap.getElem?_map, TypeTable.getElem?_ofNodes_of_last? hlast]
  simp only [Option.map_some, mem_reported, Std.ExtTreeSet.contains_iff_mem]

/-- The reported types are sorted and distinct. They are those of some cycles of declared
supertypes, at least one type of each cycle among them. A type on a cycle is missed only if it is
reached from a reported type that has another, reported supertype on the same cycles; where no type
has two supertypes that lead back to it, exactly the types on cycles are reported. The one policy
refuses the nodes with these names, the other takes the supertypes of these types away. -/
theorem reported_cycles (nodes : List TypeNode) :
    (reported nodes).Pairwise (fun a b => compare a b = .lt) ∧
    (∀ name ∈ reported nodes, Relation.TransGen
      (fun a b => TypeNode.Declares nodes a b ∧ a ∈ reported nodes ∧ b ∈ reported nodes)
      name name) ∧
    (∀ name, ¬ Relation.TransGen
      (fun a b => TypeNode.Declares nodes a b ∧ a ∉ reported nodes) name name) ∧
    (∀ name, TypeNode.OnCycle nodes name → name ∉ reported nodes →
      ∃ fork kept lost, fork ∈ reported nodes ∧ kept ∈ reported nodes ∧ lost ∉ reported nodes ∧
        TypeNode.Declares nodes fork kept ∧ TypeNode.Declares nodes fork lost ∧
        Relation.ReflTransGen (TypeNode.Declares nodes) kept fork ∧
        Relation.ReflTransGen
          (fun a b => TypeNode.Declares nodes a b ∧ a ∉ reported nodes) lost name ∧
        Relation.ReflTransGen (TypeNode.Declares nodes) name fork) ∧
    ((∀ sub a b, TypeNode.Declares nodes sub a → TypeNode.Declares nodes sub b →
        Relation.ReflTransGen (TypeNode.Declares nodes) a sub →
        Relation.ReflTransGen (TypeNode.Declares nodes) b sub → a = b) →
      ∀ name, name ∈ reported nodes ↔ TypeNode.OnCycle nodes name) ∧
    (build nodes .fail =
      if (reported nodes).isEmpty then build nodes .degrade
      else .error (.hierarchyCycle (reported nodes))) ∧
    ∃ h, build nodes .degrade = .ok h ∧
      ∀ name declared, TypeNode.last? nodes name = some declared →
        h.get? name = some (if name ∈ reported nodes then
          declared.withoutSelfEdges.withoutSupertypes else declared.withoutSelfEdges) := by
  have hclosed : (TypeTable.ofNodes nodes).Closed := TypeTable.closed_addDangling _
  have hdeclares : TypeNode.Declares nodes = (TypeTable.ofNodes nodes).Extends :=
    funext fun _ => funext fun _ => propext TypeTable.extends_ofNodes.symm
  have hfork (name : String) (hcycle : TypeNode.OnCycle nodes name)
      (hname : name ∉ reported nodes) := by
    rw [TypeNode.OnCycle, hdeclares] at hcycle
    exact TypeTable.exists_fork_of_not_mem_cyclic hclosed hcycle (mt mem_reported.mpr hname)
  simp only [← mem_reported, ← hdeclares] at hfork
  have hloop (name : String) (hname : name ∈ reported nodes) :=
    TypeTable.onReportedCycle_of_mem_cyclic hclosed (mem_reported.mp hname)
  simp only [← mem_reported, ← hdeclares] at hloop
  refine ⟨Std.ExtTreeSet.ordered_toList, hloop, fun name => ?_, hfork, fun hsingle name => ?_,
    build_fail_eq_reported nodes, _, build_degrade nodes, fun name declared hlast => ?_⟩
  · simp only [mem_reported, hdeclares]
    exact TypeTable.not_onUnreportedCycle hclosed name
  · refine ⟨fun hname => Relation.TransGen.mono (fun _ _ h => h.1) _ _ (hloop name hname),
      fun hcycle => ?_⟩
    by_contra hname
    -- A fork would have two supertypes that lead back to it.
    obtain ⟨fork, kept, lost, -, hkept, hlost, hkeptEdge, hlostEdge, hback, hto, hfrom⟩ :=
      hfork name hcycle hname
    have hlostBack : Relation.ReflTransGen (TypeNode.Declares nodes) lost fork :=
      (Relation.ReflTransGen.mono (fun _ _ h => h.1) _ _ hto).trans hfrom
    exact hlost (hsingle fork lost kept hlostEdge hkeptEdge hlostBack hback ▸ hkept)
  · exact get?_of_build_degrade (build_degrade nodes) hlast

/-- Two cycles that share an edge. The search comes to `X` last, when `B` is finished. -/
def overlapping : List TypeNode :=
  [{ name := "A", superclass := some "X", interfaces := ["B"] },
    { name := "B", superclass := some "A" },
    { name := "X", superclass := some "B" }]

/-- One of the three types on the cycle from `A` by `X` and `B` back to `A` is not reported. -/
theorem not_mem_reported_overlapping :
    TypeNode.OnCycle overlapping "X" ∧ "X" ∉ reported overlapping ∧
      build overlapping .fail = .error (.hierarchyCycle ["A", "B"]) := by
  have hreported : reported overlapping = ["A", "B"] := by decide +kernel
  refine ⟨?_, ?_, ?_⟩
  · have hX : TypeNode.Declares overlapping "X" "B" := ⟨_, rfl, .inl rfl, by decide⟩
    have hB : TypeNode.Declares overlapping "B" "A" := ⟨_, rfl, .inl rfl, by decide⟩
    have hA : TypeNode.Declares overlapping "A" "X" := ⟨_, rfl, .inl rfl, by decide⟩
    exact .head hX (.head hB (.single hA))
  · simp [hreported]
  · rw [build_fail_eq_reported, hreported]
    rfl

end Hierarchy

end JavaCallGraph
