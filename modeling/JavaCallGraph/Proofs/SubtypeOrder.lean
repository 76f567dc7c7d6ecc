import JavaCallGraph.Proofs.InheritedMethods

/-!
# Subtyping is a partial order

A type is a subtype of itself, of the root class and of every type that a chain of supertype edges
leads to without passing the root class. If the root class has no supertypes, it cannot be passed,
so that subtypes are simply what edges lead from. A built hierarchy has no cycle of edges, so two
types are then subtypes of one another only if they are the same.
-/

namespace JavaCallGraph

theorem TypeTable.Chain.transGen {table : TypeTable} {sub sup : String}
    (h : table.Chain sub sup) : Relation.TransGen table.Extends sub sup := by
  induction h with
  | edge hext => exact .single hext
  | step hext _ _ ih => exact .head hext ih

namespace Hierarchy

variable {nodes : List TypeNode} {policy : CyclePolicy} {h : Hierarchy} {a b c sub sup : String}

theorem mem_ancestors_of_build (hb : build nodes policy = .ok h) :
    sup ∈ h.ancestors sub ↔ sup ≠ Descriptor.objectName ∧ h.nodes.Chain sub sup := by
  rw [← mem_descendants_of_build hb, build_eq_ok hb]
  exact mem_ancestors_index

theorem isSubtype_iff_of_build (hb : build nodes policy = .ok h) :
    h.isSubtype sub sup ↔ sub = sup ∨ sup = Descriptor.objectName ∨ h.nodes.Chain sub sup := by
  simp only [isSubtype, Bool.or_eq_true, beq_iff_eq, Std.ExtTreeSet.contains_iff_mem,
    mem_ancestors_of_build hb, or_assoc]
  by_cases hsup : sup = Descriptor.objectName
  · simp [hsup]
  · simp [hsup]

/-- Away from the root class, subtypes are what lies in the cone. -/
theorem isSubtype_iff_mem_cone (hb : build nodes policy = .ok h)
    (hsup : sup ≠ Descriptor.objectName) : h.isSubtype sub sup ↔ sub ∈ h.cone sup := by
  rw [isSubtype_iff_of_build hb, mem_cone, mem_descendants_of_build hb]
  simp [hsup]

/-! ### Below a root class without supertypes -/

theorem isSubtype_iff_reaches (hb : build nodes policy = .ok h)
    (hroot : h.nodes.supertypes Descriptor.objectName = []) :
    h.isSubtype sub sup ↔
      sup = Descriptor.objectName ∨ Relation.ReflTransGen h.nodes.Extends sub sup := by
  rw [isSubtype_iff_of_build hb, Relation.reflTransGen_iff_eq_or_transGen]
  constructor
  · rintro (rfl | hobject | hchain)
    · exact .inr (.inl rfl)
    · exact .inl hobject
    · exact .inr (.inr hchain.transGen)
  · rintro (hobject | heq | htrans)
    · exact .inr (.inl hobject)
    · exact .inl heq.symm
    · exact .inr (.inr (TypeTable.chain_of_transGen hroot htrans))

theorem eq_object_of_isSubtype (hb : build nodes policy = .ok h)
    (hroot : h.nodes.supertypes Descriptor.objectName = [])
    (hsub : h.isSubtype Descriptor.objectName sup) : sup = Descriptor.objectName := by
  rcases (isSubtype_iff_reaches hb hroot).mp hsub with hobject | hreaches
  · exact hobject
  · rcases hreaches.cases_head with heq | ⟨next, hnext, -⟩
    · exact heq.symm
    · simp [TypeTable.Extends, hroot] at hnext

theorem isSubtype_trans (hb : build nodes policy = .ok h)
    (hroot : h.nodes.supertypes Descriptor.objectName = []) (hab : h.isSubtype a b)
    (hbc : h.isSubtype b c) : h.isSubtype a c := by
  rcases (isSubtype_iff_reaches hb hroot).mp hab with rfl | habove
  · rw [eq_object_of_isSubtype hb hroot hbc]
    exact h.isSubtype_object a
  · rw [isSubtype_iff_reaches hb hroot] at hbc ⊢
    exact hbc.imp_right habove.trans

theorem isSubtype_antisymm (hb : build nodes policy = .ok h)
    (hroot : h.nodes.supertypes Descriptor.objectName = []) (hab : h.isSubtype a b)
    (hba : h.isSubtype b a) : a = b := by
  rcases (isSubtype_iff_reaches hb hroot).mp hab with rfl | habove
  · exact eq_object_of_isSubtype hb hroot hba
  rcases (isSubtype_iff_reaches hb hroot).mp hba with rfl | hback
  · exact (eq_object_of_isSubtype hb hroot hab).symm
  · rcases Relation.reflTransGen_iff_eq_or_transGen.mp habove with heq | htrans
    · exact heq.symm
    · exact (acyclic_of_build hb a (htrans.trans_left hback)).elim

/-- Subtyping is reflexive, transitive and antisymmetric over all names, declared or not. Every
type is a subtype of the root class; of any other type exactly those are that lie in its cone, which
are those from which edges lead to it. -/
theorem subtyping_partial_order (hb : build nodes policy = .ok h)
    (hroot : h.nodes.supertypes Descriptor.objectName = []) :
    (∀ a, h.isSubtype a a) ∧
    (∀ a b c, h.isSubtype a b → h.isSubtype b c → h.isSubtype a c) ∧
    (∀ a b, h.isSubtype a b → h.isSubtype b a → a = b) ∧
    (∀ sub sup, sup ≠ Descriptor.objectName → (h.isSubtype sub sup ↔ sub ∈ h.cone sup)) ∧
    ∀ sub sup, h.isSubtype sub sup ↔
      sup = Descriptor.objectName ∨ Relation.ReflTransGen h.nodes.Extends sub sup := by
  exact ⟨h.isSubtype_refl, fun a b c => isSubtype_trans hb hroot,
    fun a b => isSubtype_antisymm hb hroot, fun sub sup => isSubtype_iff_mem_cone hb,
    fun sub sup => isSubtype_iff_reaches hb hroot⟩

def braided : List TypeNode :=
  [{ name := Descriptor.objectName },
    { name := "Top", kind := .interface },
    { name := "Left", kind := .interface, interfaces := ["Top"] },
    { name := "Right", superclass := some "Missing", interfaces := ["Top"] },
    { name := "Bottom", superclass := some "Right", interfaces := ["Left"] },
    { name := "Ping", superclass := some "Pong" },
    { name := "Pong", superclass := some "Ping", interfaces := ["Bottom"] }]

theorem subtyping_partial_order_braided : ∃ h, build braided .degrade = .ok h ∧
    h.nodes.supertypes Descriptor.objectName = [] ∧
    Relation.ReflTransGen h.nodes.Extends "Bottom" "Top" ∧ "Bottom" ∈ h.cone "Missing" ∧
    ¬ h.isSubtype "Left" "Right" ∧ ¬ Relation.ReflTransGen h.nodes.Extends "Ping" "Pong" := by
  have hb := build_degrade braided
  refine ⟨_, hb, by decide +kernel, ?_⟩
  obtain ⟨-, htrans, -, hcone, hreaches⟩ := subtyping_partial_order hb (by decide +kernel)
  refine ⟨?_, ?_, by decide +kernel, fun hping => ?_⟩
  · have hsub := htrans "Bottom" "Left" "Top" (by decide +kernel) (by decide +kernel)
    exact ((hreaches "Bottom" "Top").mp hsub).resolve_left (by decide)
  · exact (hcone "Bottom" "Missing" (by decide)).mp (by decide +kernel)
  · exact absurd ((hreaches "Ping" "Pong").mpr (.inr hping)) (by decide +kernel)

end Hierarchy

end JavaCallGraph
