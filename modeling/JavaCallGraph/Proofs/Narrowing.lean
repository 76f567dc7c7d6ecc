import JavaCallGraph.ConstraintSet
import JavaCallGraph.Proofs.SubtypeOrder
import Mathlib.Tactic.ByContra

/-!
# What a cast can lose

A cast keeps the members of a set that are subtypes of its target, and takes everything below the
target if there are none. Below a class or an interface nothing is lost, since such a type stands
in a set together with all its subtypes. The root class stands there alone: a set that holds it
means any object, but as soon as one other member fits the target, only what the set names is kept.
-/

namespace JavaCallGraph

namespace ConstraintSet

variable {h : Hierarchy} {s : ConstraintSet} {target : StaticType} {name t : String}

/-- If some member fits the target, exactly the members that fit are kept. -/
theorem mem_narrow_of_fits (htarget : target.referenceName? = some name) {member : String}
    (hmember : member ∈ s.types) (hfits : h.isSubtype member name) :
    t ∈ (s.narrow h target).types ↔ t ∈ s.types ∧ h.isSubtype t name := by
  have hkept : (s.types.filter fun t => h.isSubtype t name).isEmpty = false := by
    rw [Bool.eq_false_iff, Ne, Std.ExtTreeSet.isEmpty_iff]
    intro hempty
    have hmem : member ∈ s.types.filter fun t => h.isSubtype t name := by
      simp [hmember, hfits]
    simp [hempty] at hmem
  simp [narrow, htarget, hkept]

/-- If no member fits the target, everything below the target is taken. -/
theorem narrow_of_none_fits (htarget : target.referenceName? = some name)
    (hnone : ∀ member ∈ s.types, h.isSubtype member name = false) :
    s.narrow h target = cone h name := by
  have hkept : (s.types.filter fun t => h.isSubtype t name).isEmpty := by
    rw [Std.ExtTreeSet.isEmpty_iff, Std.ExtTreeSet.eq_empty_iff_forall_not_mem]
    intro member hmember
    obtain ⟨hmem, hfits⟩ := by simpa using hmember
    simp [hnone member hmem] at hfits
  simp [narrow, htarget, hkept]

/-- A cast of a place of type `declared` to `target`, two reference types the second of which is not
the root class, where the set of the place holds all that lies below `declared`. If `declared` is
not the root class either, no common subtype of the two is lost. In any case, none is lost exactly
if no member of the set fits the target or the set itself names all common subtypes. -/
theorem narrow_keeps_common_subtypes {nodes : List TypeNode} {policy : CyclePolicy}
    (hb : Hierarchy.build nodes policy = .ok h) {declared : String}
    (htarget : target.referenceName? = some name) (hname : name ≠ Descriptor.objectName)
    (hcone : ∀ t ∈ h.cone declared, t ∈ s.types) :
    (declared ≠ Descriptor.objectName → ∀ t, h.isSubtype t declared → h.isSubtype t name →
      t ∈ (s.narrow h target).types) ∧
    ((∀ t, h.contains t → h.isSubtype t declared → h.isSubtype t name →
        t ∈ (s.narrow h target).types) ↔
      (∀ t ∈ s.types, h.isSubtype t name = false) ∨
        ∀ t, h.contains t → h.isSubtype t declared → h.isSubtype t name → t ∈ s.types) := by
  refine ⟨fun hdeclared t hsub hfits => ?_, fun hall => ?_, ?_⟩
  · have hmem := hcone t ((Hierarchy.isSubtype_iff_mem_cone hb hdeclared).mp hsub)
    exact (mem_narrow_of_fits htarget hmem hfits).mpr ⟨hmem, hfits⟩
  · by_contra hneither
    push Not at hneither
    obtain ⟨⟨member, hmember, hfits⟩, t, ht, hsub, htfits, hlost⟩ := hneither
    rw [Ne, Bool.not_eq_false] at hfits
    exact hlost ((mem_narrow_of_fits htarget hmember hfits).mp (hall t ht hsub htfits)).1
  · rintro (hnone | hnamed) t ht hsub hfits
    · rw [narrow_of_none_fits htarget hnone]
      exact (Hierarchy.isSubtype_iff_mem_cone hb hname).mp hfits
    · have hmem := hnamed t ht hsub hfits
      exact (mem_narrow_of_fits htarget hmem hfits).mpr ⟨hmem, hfits⟩

def twoBranches : List TypeNode :=
  [{ name := Descriptor.objectName },
    { name := "I", kind := .interface },
    { name := "A", superclass := some Descriptor.objectName },
    { name := "B", superclass := some "A", interfaces := ["I"] },
    { name := "C", superclass := some "A" }]

/-- A local of type `A` that has been assigned an object of a type unrelated to it: the cast to `I`
finds `B`. -/
theorem narrow_keeps_common_subtypes_twoBranches :
    ∃ h, Hierarchy.build twoBranches .degrade = .ok h ∧
      "B" ∈ ((cone h "A" ∪ exact "Other").narrow h (.reference "I")).types := by
  have hcyclic : (TypeTable.ofNodes twoBranches).cyclic.isEmpty := by decide +kernel
  have hb : Hierarchy.build twoBranches .degrade =
      .ok (Hierarchy.index (TypeTable.ofNodes twoBranches)) := by
    simp [Hierarchy.build, hcyclic]
  refine ⟨_, hb, ?_⟩
  have hcone : ∀ t ∈ (Hierarchy.index (TypeTable.ofNodes twoBranches)).cone "A",
      t ∈ (cone (Hierarchy.index (TypeTable.ofNodes twoBranches)) "A" ∪ exact "Other").types :=
    fun t ht => by rw [types_union, Std.ExtTreeSet.mem_union_iff]; exact .inl ht
  have htarget : (StaticType.reference "I").referenceName? = some "I" := rfl
  have hall := narrow_keeps_common_subtypes hb htarget (by decide) hcone
  exact hall.1 (by decide) "B" (by decide +kernel) (by decide +kernel)

/-- A parameter of the root class that has been assigned an object of `B`: the cast to `A` loses
`C`, although any object may be passed. -/
theorem not_mem_narrow_twoBranches :
    ∃ h, Hierarchy.build twoBranches .degrade = .ok h ∧
      let s := cone h Descriptor.objectName ∪ exact "B"
      s.unresolved ∧ (∀ t ∈ h.cone Descriptor.objectName, t ∈ s.types) ∧
        h.contains "C" ∧ h.isSubtype "C" Descriptor.objectName ∧ h.isSubtype "C" "A" ∧
        "C" ∉ (s.narrow h (.reference "A")).types := by
  have hcyclic : (TypeTable.ofNodes twoBranches).cyclic.isEmpty := by decide +kernel
  refine ⟨Hierarchy.index (TypeTable.ofNodes twoBranches), by simp [Hierarchy.build, hcyclic], ?_⟩
  refine ⟨rfl, fun t ht => ?_, by decide +kernel, by decide +kernel, by decide +kernel,
    by decide +kernel⟩
  rw [types_union, Std.ExtTreeSet.mem_union_iff]
  exact .inl ht

end ConstraintSet

end JavaCallGraph
