import JavaCallGraph.Proofs.SubtypeSpread

/-!
# The hierarchy index is the closure of the supertype edges

The sets of a hierarchy hold, for every type but the root class, exactly the types from which a
chain of direct-supertype edges leads to it without passing through the root class. Every run of
the work list ends, and ends with the same index, in whatever order the nodes are stored and the
list is started and worked off.
-/

namespace JavaCallGraph

namespace Hierarchy

open Spread (start limit Steps Inv)

variable {table : TypeTable}

theorem run_spec (hclosed : table.Closed) {work : List String}
    (hwork : ∀ name, name ∈ work ↔ name ∈ table) {stored : List (String × TypeNode)}
    (hstored : stored.Perm table.toList) {n : Nat} {s : Spread}
    (h : Steps table n (start stored work) s) :
    Inv table s ∧ n ≤ limit table work := by
  have hinv := Spread.inv_start hstored hwork
  have hslack := Spread.slack_start_le table stored work
  have hsteps := h.add_slack_le hclosed hinv
  exact ⟨h.inv hclosed hinv, by omega⟩

theorem exists_run (hclosed : table.Closed) {work : List String}
    (hwork : ∀ name, name ∈ work ↔ name ∈ table) {stored : List (String × TypeNode)}
    (hstored : stored.Perm table.toList) :
    ∃ n, Steps table n (start stored work)
        (Spread.run table (limit table work) (start stored work)) ∧
      (Spread.run table (limit table work) (start stored work)).work = [] :=
  Spread.steps_run hclosed (Spread.inv_start hstored hwork)
    (Spread.slack_start_le table stored work)

theorem below_index (hclosed : table.Closed) :
    ∃ s, Inv table s ∧ s.work = [] ∧ (index table).below = s.below := by
  obtain ⟨n, hrun, hdone⟩ := exists_run hclosed (fun _ => TypeTable.mem_finished_search)
    (List.Perm.refl table.toList)
  exact ⟨_, (run_spec hclosed (fun _ => TypeTable.mem_finished_search)
    (List.Perm.refl table.toList) hrun).1, hdone, rfl⟩

theorem mem_descendants_index (hclosed : table.Closed) {sub sup : String} :
    sub ∈ (index table).descendants sup ↔
      sup ≠ Descriptor.objectName ∧ table.Chain sub sup := by
  obtain ⟨s, hinv, hdone, hbelow⟩ := below_index hclosed
  rw [descendants, hbelow]
  exact hinv.mem_below_iff hdone

/-- Whatever is taken next, the loop ends with one map. -/
theorem below_eq_of_steps (hclosed : table.Closed) {stored : List (String × TypeNode)}
    (hstored : stored.Perm table.toList) {work : List String}
    (hwork : ∀ name, name ∈ work ↔ name ∈ table) {n : Nat} {s : Spread}
    (h : Steps table n (start stored work) s) (hdone : s.work = []) :
    s.below = (index table).below := by
  obtain ⟨t, ht, htdone, hbelow⟩ := below_index hclosed
  have hs := (run_spec hclosed hwork hstored h).1
  rw [hbelow]
  apply NameMap.ext_namesOf hs.listsSome ht.listsSome
  intro key name
  rw [hs.mem_below_iff hdone, ht.mem_below_iff htdone]

theorem mem_ancestors_index {sub sup : String} :
    sup ∈ (index table).ancestors sub ↔ sub ∈ (index table).descendants sup := by
  change sup ∈ (NameMap.inverse (index table).below).namesOf sub ↔ _
  rw [NameMap.inverse, NameMap.mem_namesOf_inverseOf, descendants, NameMap.namesOf]
  simp only [Std.ExtTreeMap.mem_toList_iff_getElem?_eq_some]
  cases (index table).below[sup]? <;> simp

theorem build_eq_ok {nodes : List TypeNode} {policy : CyclePolicy} {h : Hierarchy}
    (hb : build nodes policy = .ok h) :
    h = index ((TypeTable.ofNodes nodes).cut (TypeTable.ofNodes nodes).cyclic) := by
  unfold build at hb
  dsimp only at hb
  split at hb
  · next hempty =>
    rw [TypeTable.cut_of_isEmpty hempty]
    cases hb
    rfl
  · cases policy with
    | fail => cases hb
    | degrade =>
      cases hb
      rfl

/-- The closure is exact, and the same in whatever order the nodes are stored and listed and the
work list is started and worked off. -/
theorem build_closure_exact {nodes : List TypeNode} {policy : CyclePolicy} {h : Hierarchy}
    (hb : build nodes policy = .ok h) :
    h.nodes = (TypeTable.ofNodes nodes).cut (TypeTable.ofNodes nodes).cyclic ∧
    (∀ stored, stored.Perm (TypeTable.declared nodes).toList →
      TypeTable.addSupertypesOf stored (TypeTable.declared nodes) = TypeTable.ofNodes nodes) ∧
    (∀ stored work, stored.Perm h.nodes.toList → work.Perm h.nodes.keys →
      TypeTable.subtypesOf stored = h.subtypes ∧
      (∀ n s, Steps h.nodes n (start stored work) s → n ≤ limit h.nodes work) ∧
      (∃ n s, Steps h.nodes n (start stored work) s ∧ s.work = []) ∧
      ∀ n s, Steps h.nodes n (start stored work) s → s.work = [] →
        s.below = h.below ∧ ∀ listed, listed.Perm s.below.toList →
          NameMap.inverseOf listed = h.above) ∧
    (∀ a b, a ≠ Descriptor.objectName → (b ∈ h.descendants a ↔ h.nodes.Chain b a)) ∧
    h.descendants Descriptor.objectName = ∅ ∧
    (∀ a b, b ∈ h.descendants a ↔ a ∈ h.ancestors b) ∧
    ∀ a, (h.directSubtypes a).Pairwise (fun b c => compare b c = .lt) ∧
      ∀ b, b ∈ h.directSubtypes a ↔ h.nodes.Extends b a := by
  have hclosed : ((TypeTable.ofNodes nodes).cut (TypeTable.ofNodes nodes).cyclic).Closed :=
    (TypeTable.closed_addDangling _).cut _
  obtain rfl := build_eq_ok hb
  generalize (TypeTable.ofNodes nodes).cut (TypeTable.ofNodes nodes).cyclic = table at hclosed hb ⊢
  refine ⟨rfl, fun stored hstored => TypeTable.addSupertypesOf_eq_addDangling hstored,
    ?_, ?_, ?_, ?_, ?_⟩
  · intro stored work hstored hperm
    have hwork (name : String) : name ∈ work ↔ name ∈ table := by
      rw [hperm.mem_iff, Std.ExtTreeMap.mem_keys]
      rfl
    refine ⟨TypeTable.subtypesOf_eq_of_perm hstored, ?_, ?_, ?_⟩
    · exact fun n s hsteps => (run_spec hclosed hwork hstored hsteps).2
    · obtain ⟨n, hsteps, hdone⟩ := exists_run hclosed hwork hstored
      exact ⟨n, _, hsteps, hdone⟩
    · intro n s hsteps hdone
      have hbelow := below_eq_of_steps hclosed hstored hwork hsteps hdone
      refine ⟨hbelow, fun listed hlisted => ?_⟩
      rw [hbelow] at hlisted
      exact NameMap.inverseOf_eq_of_perm hlisted
  · intro a b ha
    rw [mem_descendants_index hclosed]
    exact and_iff_right ha
  · apply Std.ExtTreeSet.ext_mem
    intro b
    rw [mem_descendants_index hclosed]
    simp
  · exact fun a b => mem_ancestors_index.symm
  · intro a
    refine ⟨Std.ExtTreeSet.ordered_toList, fun b => ?_⟩
    rw [directSubtypes, Std.ExtTreeSet.mem_toList]
    exact TypeTable.mem_namesOf_subtypesOf (List.Perm.refl table.toList)

/-- A chain with a short cut, a type declared nowhere, two types on a cycle, and a root class with
a supertype of its own. -/
def tangled : List TypeNode :=
  [{ name := "I", kind := .interface },
    { name := "Base", superclass := some Descriptor.objectName, interfaces := ["I"] },
    { name := "Leaf", superclass := some "Mid", interfaces := ["I", "Leaf"] },
    { name := "Mid", superclass := some "Base", interfaces := ["Missing"] },
    { name := "Ping", superclass := some "Pong" },
    { name := "Pong", superclass := some "Ping" },
    { name := Descriptor.objectName, superclass := some "Odd" }]

theorem build_closure_exact_tangled : ∃ h, build tangled .degrade = .ok h ∧
    h.nodes.Chain "Leaf" "I" ∧ "Missing" ∈ h.ancestors "Leaf" ∧
    h.nodes.Chain "Base" Descriptor.objectName ∧ h.nodes.Chain Descriptor.objectName "Odd" ∧
    ¬ h.nodes.Chain "Base" "Odd" ∧ ¬ h.nodes.Chain "Ping" "Pong" := by
  have hcyclic : (TypeTable.ofNodes tangled).cyclic.isEmpty = false := by decide +kernel
  have hb : build tangled .degrade = .ok (index ((TypeTable.ofNodes tangled).cut
      (TypeTable.ofNodes tangled).cyclic)) := by
    simp [build, hcyclic]
  obtain ⟨-, -, -, hchain, -, hdual, hdirect⟩ := build_closure_exact hb
  refine ⟨_, hb, ?_, ?_, ?_, ?_, ?_, ?_⟩
  · exact (hchain "I" "Leaf" (by decide)).mp (by decide +kernel)
  · exact (hdual "Missing" "Leaf").mp (by decide +kernel)
  · exact .edge (((hdirect Descriptor.objectName).2 "Base").mp (by decide +kernel))
  · exact (hchain "Odd" Descriptor.objectName (by decide)).mp (by decide +kernel)
  · exact fun h => absurd ((hchain "Odd" "Base" (by decide)).mpr h) (by decide +kernel)
  · exact fun h => absurd ((hchain "Pong" "Ping" (by decide)).mpr h) (by decide +kernel)

end Hierarchy

end JavaCallGraph
