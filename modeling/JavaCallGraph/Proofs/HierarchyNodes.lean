import JavaCallGraph.Hierarchy
import JavaCallGraph.Proofs.NameSets

/-!
# The nodes of a hierarchy

Chains of direct-supertype edges, and what the table of types of a run is made of. Every supertype
has a node, also after the edges of types on a cycle are cut, and neither the nodes nor the direct
subtypes depend on the order in which they are listed.
-/

namespace JavaCallGraph

namespace TypeTable

variable {table : TypeTable}

def Extends (table : TypeTable) (sub sup : String) : Prop := sup ∈ table.supertypes sub

/-- One or more edges lead from the first type to the second, and the root class is not passed. -/
inductive Chain (table : TypeTable) : String → String → Prop
  | edge {sub sup : String} : table.Extends sub sup → Chain table sub sup
  | step {sub mid sup : String} : table.Extends sub mid → mid ≠ Descriptor.objectName →
      Chain table mid sup → Chain table sub sup

theorem Chain.snoc {sub mid sup : String} (h : table.Chain sub mid)
    (hmid : mid ≠ Descriptor.objectName) (hsup : table.Extends mid sup) : table.Chain sub sup := by
  induction h with
  | edge h => exact .step h hmid (.edge hsup)
  | step h hne _ ih => exact .step h hne (ih hmid hsup)

theorem extends_iff {sub sup : String} :
    table.Extends sub sup ↔ ∃ node, table[sub]? = some node ∧ sup ∈ node.supertypes := by
  unfold Extends supertypes
  cases table[sub]? <;> simp

theorem Extends.mem {sub sup : String} (h : table.Extends sub sup) : sub ∈ table := by
  obtain ⟨node, hnode, -⟩ := extends_iff.mp h
  exact Std.ExtTreeMap.mem_iff_isSome_getElem?.mpr (by simp [hnode])

theorem Chain.mem {sub sup : String} (h : table.Chain sub sup) : sub ∈ table := by
  cases h with
  | edge h => exact h.mem
  | step h _ _ => exact h.mem

/-! ### The nodes of a hierarchy -/

def Closed (table : TypeTable) : Prop := ∀ sub sup, table.Extends sub sup → sup ∈ table

theorem getElem?_addSupertypesOf (stored : List (String × TypeNode)) (table : TypeTable)
    (name : String) :
    (addSupertypesOf stored table)[name]? =
      table[name]?.or (if name ∈ stored.flatMap fun p => p.2.supertypes then
        some (.dangling name) else none) := by
  rw [addSupertypesOf, getElem?_foldl_insertIfNew (fun sup => sup) TypeNode.dangling]
  congr 1
  cases hfind : (stored.flatMap fun p => p.2.supertypes).find? (· = name) with
  | none =>
    have hnone := List.find?_eq_none.mp hfind
    rw [if_neg fun hmem => hnone name hmem (decide_eq_true rfl)]
    rfl
  | some sup =>
    have hname : sup = name := by simpa using List.find?_some hfind
    rw [if_pos (hname ▸ List.mem_of_find?_eq_some hfind), hname]
    rfl

theorem addSupertypesOf_eq_addDangling {stored : List (String × TypeNode)}
    (h : stored.Perm table.toList) : addSupertypesOf stored table = addDangling table := by
  apply Std.ExtTreeMap.ext_getElem?
  intro name
  rw [addDangling, getElem?_addSupertypesOf, getElem?_addSupertypesOf]
  simp only [List.mem_flatMap, h.mem_iff]

theorem closed_addDangling (table : TypeTable) : (addDangling table).Closed := by
  intro sub sup hext
  obtain ⟨node, hnode, hsup⟩ := extends_iff.mp hext
  rw [addDangling, getElem?_addSupertypesOf, Option.or_eq_some_iff] at hnode
  rw [Std.ExtTreeMap.mem_iff_isSome_getElem?, addDangling, getElem?_addSupertypesOf]
  rcases hnode with hnode | ⟨-, hdangling⟩
  · have hmem : sup ∈ table.toList.flatMap fun p => p.2.supertypes :=
      List.mem_flatMap.mpr
        ⟨(sub, node), Std.ExtTreeMap.mem_toList_iff_getElem?_eq_some.mpr hnode, hsup⟩
    simp [if_pos hmem]
  · -- A node that has just been added has no supertypes.
    split at hdangling
    · cases hdangling
      simp [TypeNode.supertypes, TypeNode.dangling] at hsup
    · simp at hdangling

theorem Closed.cut (h : table.Closed) (cyclic : NameSet) : (table.cut cyclic).Closed := by
  intro sub sup hext
  obtain ⟨node, hnode, hsup⟩ := extends_iff.mp hext
  rw [TypeTable.cut, Std.ExtTreeMap.getElem?_map, Option.map_eq_some_iff] at hnode
  obtain ⟨old, hold, rfl⟩ := hnode
  rw [TypeTable.cut, Std.ExtTreeMap.mem_map]
  split at hsup
  · simp at hsup
  · exact h sub sup (extends_iff.mpr ⟨old, hold, hsup⟩)

theorem cut_of_isEmpty {cyclic : NameSet} (h : cyclic.isEmpty) : table.cut cyclic = table := by
  apply Std.ExtTreeMap.ext_getElem?
  intro name
  rw [TypeTable.cut, Std.ExtTreeMap.getElem?_map, Std.ExtTreeSet.isEmpty_iff.mp h]
  simp

theorem mem_namesOf_subtypesOf {stored : List (String × TypeNode)}
    (h : stored.Perm table.toList) {sub sup : String} :
    sub ∈ (subtypesOf stored).namesOf sup ↔ table.Extends sub sup := by
  rw [subtypesOf, NameMap.mem_namesOf_ofPairs, extends_iff]
  simp only [List.mem_flatMap, List.mem_map, Prod.mk.injEq]
  constructor
  · rintro ⟨⟨name, node⟩, hmem, s, hs, rfl, rfl⟩
    have hlist := h.mem_iff.mp hmem
    exact ⟨node, Std.ExtTreeMap.mem_toList_iff_getElem?_eq_some.mp hlist, hs⟩
  · rintro ⟨node, hnode, hs⟩
    have hlist := Std.ExtTreeMap.mem_toList_iff_getElem?_eq_some.mpr hnode
    exact ⟨(sub, node), h.mem_iff.mpr hlist, sup, hs, rfl, rfl⟩

theorem listsSome_subtypesOf (stored : List (String × TypeNode)) :
    (subtypesOf stored).ListsSome := NameMap.listsSome_ofPairs _

theorem subtypesOf_eq_of_perm {stored : List (String × TypeNode)}
    (h : stored.Perm table.toList) : subtypesOf stored = table.subtypes := by
  apply NameMap.ext_namesOf (listsSome_subtypesOf _) (listsSome_subtypesOf _)
  intro key name
  rw [mem_namesOf_subtypesOf h, mem_namesOf_subtypesOf (List.Perm.refl _)]

end TypeTable

end JavaCallGraph
