import JavaCallGraph.Proofs.HierarchyClosure
import JavaCallGraph.Proofs.SupertypeCycles
import Mathlib.Data.List.Induction

/-!
# Cycles of supertypes and what is done about them

The supertypes that a list of nodes declares are those of the last node of each name, without the
type itself. If they have a cycle, the index is either refused, or made of nodes of which some types
on cycles have lost their supertypes, so many that no cycle is left.
-/

namespace JavaCallGraph

namespace TypeNode

def last? (nodes : List TypeNode) (name : String) : Option TypeNode :=
  nodes.reverse.find? (·.name == name)

/-- The node that counts for `sub` has another type `sup` as its superclass or among its
interfaces. -/
def Declares (nodes : List TypeNode) (sub sup : String) : Prop :=
  ∃ node, last? nodes sub = some node ∧ (node.superclass = some sup ∨ sup ∈ node.interfaces) ∧
    sup ≠ sub

def OnCycle (nodes : List TypeNode) (name : String) : Prop :=
  Relation.TransGen (Declares nodes) name name

theorem name_of_last? {nodes : List TypeNode} {name : String} {node : TypeNode}
    (h : last? nodes name = some node) : node.name = name := by
  simpa using List.find?_some h

theorem mem_supertypes_withoutSelfEdges {node : TypeNode} {sup : String} :
    sup ∈ node.withoutSelfEdges.supertypes ↔
      (node.superclass = some sup ∨ sup ∈ node.interfaces) ∧ sup ≠ node.name := by
  simp only [supertypes, withoutSelfEdges, List.mem_append, Option.mem_toList, List.mem_filter,
    Option.filter_eq_some_iff, bne_iff_ne]
  tauto

end TypeNode

namespace TypeTable

variable {table : TypeTable}

theorem getElem?_ofList (nodes : List TypeNode) (name : String) :
    (ofList nodes)[name]? = TypeNode.last? nodes name := by
  rw [ofList, getElem?_foldl_insert TypeNode.name fun node => node, Option.map_id', TypeNode.last?]
  simp [beq_eq_decide]

theorem getElem?_ofNodes_of_last? {nodes : List TypeNode} {name : String} {node : TypeNode}
    (h : TypeNode.last? nodes name = some node) :
    (ofNodes nodes)[name]? = some node.withoutSelfEdges := by
  rw [ofNodes, addDangling, getElem?_addSupertypesOf, declared, Std.ExtTreeMap.getElem?_map,
    getElem?_ofList, h]
  rfl

theorem extends_ofNodes {nodes : List TypeNode} {sub sup : String} :
    (ofNodes nodes).Extends sub sup ↔ TypeNode.Declares nodes sub sup := by
  rw [extends_iff]
  constructor
  · rintro ⟨node, hnode, hsup⟩
    cases hlast : TypeNode.last? nodes sub with
    | some last =>
      rw [getElem?_ofNodes_of_last? hlast] at hnode
      obtain rfl := Option.some.inj hnode
      obtain ⟨hsup, hne⟩ := TypeNode.mem_supertypes_withoutSelfEdges.mp hsup
      exact ⟨last, hlast, hsup, TypeNode.name_of_last? hlast ▸ hne⟩
    | none =>
      -- The node has been added for a supertype that nobody declares, and has none itself.
      rw [ofNodes, addDangling, getElem?_addSupertypesOf, declared, Std.ExtTreeMap.getElem?_map,
        getElem?_ofList, hlast, Option.map_none, Option.none_or] at hnode
      split at hnode
      · obtain rfl := Option.some.inj hnode
        simp [TypeNode.supertypes, TypeNode.dangling] at hsup
      · simp at hnode
  · rintro ⟨node, hlast, hsup, hne⟩
    refine ⟨_, getElem?_ofNodes_of_last? hlast, TypeNode.mem_supertypes_withoutSelfEdges.mpr ?_⟩
    exact ⟨hsup, TypeNode.name_of_last? hlast ▸ hne⟩

/-! ### What the search notes -/

theorem leads_iff {sub sup : String} :
    Search.Leads (fun name => (table.supertypes name).reverse) sub sup ↔ table.Extends sub sup := by
  simp [Search.Leads, Extends]

theorem inv_search (hclosed : table.Closed) (roots : List String) :
    Search.Inv (fun name => (table.supertypes name).reverse) table.names
      (table.search roots) := by
  apply Search.inv_all
  intro sub sup hedge
  exact mem_names.mpr (hclosed sub sup (leads_iff.mp hedge))

theorem onCycle_of_mem_cyclic (hclosed : table.Closed) {name : String} (h : name ∈ table.cyclic) :
    Relation.TransGen table.Extends name name :=
  Relation.TransGen.mono (fun _ _ hedge => leads_iff.mp hedge.1) _ _
    ((inv_search hclosed table.keys).cyclic name h)

theorem extends_cut {cyclic : NameSet} {sub sup : String} :
    (table.cut cyclic).Extends sub sup ↔ table.Extends sub sup ∧ sub ∉ cyclic := by
  rw [extends_iff, extends_iff, cut, Std.ExtTreeMap.getElem?_map]
  cases table[sub]? with
  | none => simp
  | some node =>
    by_cases hsub : sub ∈ cyclic
    · simp [hsub]
    · simp [hsub]

/-- Every cycle has a type that the search notes. -/
theorem acyclic_cut (hclosed : table.Closed) (name : String) :
    ¬ Relation.TransGen (table.cut table.cyclic).Extends name name := by
  intro hcycle
  have hmem : name ∈ table := by
    obtain ⟨sup, hedge, -⟩ := Relation.TransGen.head'_iff.mp hcycle
    exact (extends_cut.mp hedge).1.mem
  refine (inv_search hclosed table.keys).settled.acyclic (mem_finished_search.mpr hmem) ?_
  refine Relation.TransGen.mono (fun sub sup hedge => ?_) _ _ hcycle
  obtain ⟨hext, hnoted⟩ := extends_cut.mp hedge
  exact ⟨leads_iff.mpr hext, hnoted⟩

theorem isEmpty_cyclic_iff (hclosed : table.Closed) :
    table.cyclic.isEmpty ↔ ¬ ∃ name, Relation.TransGen table.Extends name name := by
  constructor
  · rintro hempty ⟨name, hcycle⟩
    exact acyclic_cut hclosed name (cut_of_isEmpty hempty ▸ hcycle)
  · intro hacyclic
    rw [Std.ExtTreeSet.isEmpty_iff, Std.ExtTreeSet.eq_empty_iff_forall_not_mem]
    intro name hname
    exact hacyclic ⟨name, onCycle_of_mem_cyclic hclosed hname⟩

end TypeTable

namespace Hierarchy

theorem closed_of_build {nodes : List TypeNode} {policy : CyclePolicy} {h : Hierarchy}
    (hb : build nodes policy = .ok h) : h.nodes.Closed := by
  obtain rfl := build_eq_ok hb
  exact (TypeTable.closed_addDangling _).cut _

theorem acyclic_of_build {nodes : List TypeNode} {policy : CyclePolicy} {h : Hierarchy}
    (hb : build nodes policy = .ok h) (name : String) :
    ¬ Relation.TransGen h.nodes.Extends name name := by
  obtain rfl := build_eq_ok hb
  exact TypeTable.acyclic_cut (TypeTable.closed_addDangling _) name

theorem build_degrade (nodes : List TypeNode) :
    build nodes .degrade =
      .ok (index ((TypeTable.ofNodes nodes).cut (TypeTable.ofNodes nodes).cyclic)) := by
  unfold build
  dsimp only
  split
  · next hempty => rw [TypeTable.cut_of_isEmpty hempty]
  · rfl

theorem build_fail (nodes : List TypeNode) :
    build nodes .fail =
      if (TypeTable.ofNodes nodes).cyclic.isEmpty then build nodes .degrade
      else .error (.hierarchyCycle (TypeTable.ofNodes nodes).cyclic.toList) := by
  unfold build
  dsimp only
  split <;> rfl

/-- A cycle of declared supertypes is refused under the one policy, and nothing else is. Under the
other the index is always built, without a cycle. There each type keeps its node as declared or,
if it lies on a cycle, may lose its supertypes with their arguments. -/
theorem cycle_policies (nodes : List TypeNode) :
    ((∃ names, build nodes .fail = .error (.hierarchyCycle names)) ↔
      ∃ name, TypeNode.OnCycle nodes name) ∧
    ((¬ ∃ name, TypeNode.OnCycle nodes name) → build nodes .fail = build nodes .degrade) ∧
    ∃ h, build nodes .degrade = .ok h ∧
      (∀ name, ¬ Relation.TransGen h.nodes.Extends name name) ∧
      ∀ name declared, TypeNode.last? nodes name = some declared →
        ∃ node, h.get? name = some node ∧
          (¬ TypeNode.OnCycle nodes name → node = declared.withoutSelfEdges) ∧
          (node ≠ declared.withoutSelfEdges →
            TypeNode.OnCycle nodes name ∧
              node = declared.withoutSelfEdges.withoutSupertypes) := by
  have hclosed : (TypeTable.ofNodes nodes).Closed := TypeTable.closed_addDangling _
  have hcycle (name : String) : TypeNode.OnCycle nodes name ↔
      Relation.TransGen (TypeTable.ofNodes nodes).Extends name name := by
    have hext : (TypeTable.ofNodes nodes).Extends = TypeNode.Declares nodes :=
      funext fun _ => funext fun _ => propext TypeTable.extends_ofNodes
    rw [hext, TypeNode.OnCycle]
  have hempty := TypeTable.isEmpty_cyclic_iff hclosed
  simp only [← hcycle] at hempty
  refine ⟨?_, fun hacyclic => by rw [build_fail, if_pos (hempty.mpr hacyclic)], _,
    build_degrade nodes, TypeTable.acyclic_cut hclosed, ?_⟩
  · rw [build_fail]
    split
    · next h => simpa [build_degrade] using hempty.mp h
    · next h => simpa using not_not.mp fun hacyclic => h (hempty.mpr hacyclic)
  · intro name declared hlast
    have hnode := TypeTable.getElem?_ofNodes_of_last? hlast
    have hget : (index ((TypeTable.ofNodes nodes).cut (TypeTable.ofNodes nodes).cyclic)).get? name =
        some (if (TypeTable.ofNodes nodes).cyclic.contains name then
          declared.withoutSelfEdges.withoutSupertypes else declared.withoutSelfEdges) := by
      change ((TypeTable.ofNodes nodes).cut (TypeTable.ofNodes nodes).cyclic)[name]? = _
      rw [TypeTable.cut, Std.ExtTreeMap.getElem?_map, hnode]
      rfl
    refine ⟨_, hget, ?_, ?_⟩
    · intro hoff
      split
      · next h => exact absurd ((hcycle name).mpr (TypeTable.onCycle_of_mem_cyclic hclosed h)) hoff
      · rfl
    · intro hlost
      split
      · next h => exact ⟨(hcycle name).mpr (TypeTable.onCycle_of_mem_cyclic hclosed h), rfl⟩
      · next h => simp [h] at hlost

def knotted : List TypeNode :=
  [{ name := "A", interfaces := ["I"] }, { name := "I", kind := .interface, interfaces := ["A"] },
    { name := "B", superclass := some "B" }]

example : TypeNode.OnCycle knotted "A" ∧ ¬ TypeNode.Declares knotted "B" "B" ∧
    build knotted .fail = .error (.hierarchyCycle ["A", "I"]) := by
  refine ⟨?_, fun ⟨_, _, _, hne⟩ => hne rfl, ?_⟩
  · have hA : TypeNode.Declares knotted "A" "I" := ⟨_, rfl, .inr (by decide), by decide⟩
    have hI : TypeNode.Declares knotted "I" "A" := ⟨_, rfl, .inr (by decide), by decide⟩
    exact .head hA (.single hI)
  · have hcyclic : (TypeTable.ofNodes knotted).cyclic.toList = ["A", "I"] := by decide +kernel
    rw [build_fail, if_neg (by decide +kernel), hcyclic]

end Hierarchy

end JavaCallGraph
