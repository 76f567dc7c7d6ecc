import JavaCallGraph.Dispatch
import JavaCallGraph.Proofs.NameSets
import Mathlib.Tactic.ByContra

/-!
# Preferred overloads

Overload selection keeps the candidates that fit the arguments and for which none that fits is
strictly more specific. What is found for a call is then cut down to the methods with a body, if
there are any, and to one resolution for each signature.
-/

namespace JavaCallGraph

namespace Overload

variable {h : Hierarchy} {candidates : List Method} {args : ArgTypes} {view : StaticType}
  {m : Method}

def Fits (h : Hierarchy) (args : ArgTypes) (view : StaticType) (m : Method) : Prop :=
  m.arityMatches args.length ∧ m.applicable h args (h.view view m.declaring)

instance : Decidable (Fits h args view m) := inferInstanceAs (Decidable (_ ∧ _))

structure Preferred (h : Hierarchy) (candidates : List Method) (args : ArgTypes)
    (view : StaticType) (m : Method) : Prop where
  mem : m ∈ candidates
  fits : Fits h args view m
  maximal : ∀ k ∈ candidates, Fits h args view k → ¬ k.strictlyMoreSpecific h m

theorem mem_applicable {r : Resolution} :
    r ∈ applicable h candidates args view ↔
      r.method ∈ candidates ∧ Fits h args view r.method ∧
        r.bindings = h.view view r.method.declaring := by
  simp only [applicable, List.mem_filterMap, List.mem_filter]
  constructor
  · rintro ⟨m, ⟨hm, harity⟩, hr⟩
    split at hr
    · next happ =>
      cases hr
      exact ⟨hm, ⟨harity, happ⟩, rfl⟩
    · cases hr
  · rintro ⟨hm, ⟨harity, happ⟩, hbind⟩
    refine ⟨r.method, ⟨hm, harity⟩, ?_⟩
    rw [if_pos happ, ← hbind]

theorem exists_mem_applicable :
    (∃ r ∈ applicable h candidates args view, r.method = m) ↔
      m ∈ candidates ∧ Fits h args view m := by
  constructor
  · rintro ⟨r, hr, rfl⟩
    obtain ⟨hmem, hfits, -⟩ := mem_applicable.mp hr
    exact ⟨hmem, hfits⟩
  · rintro ⟨hmem, hfits⟩
    exact ⟨⟨m, h.view view m.declaring⟩, mem_applicable.mpr ⟨hmem, hfits, rfl⟩, rfl⟩

theorem mem_mostSpecific {found : List Resolution} {r : Resolution} :
    r ∈ mostSpecific h found ↔
      r ∈ found ∧ ∀ k ∈ found, ¬ k.method.strictlyMoreSpecific h r.method := by
  simp [mostSpecific]

theorem method_infer (r : Resolution) (args : ArgTypes) : (r.infer args).method = r.method := by
  unfold Resolution.infer
  dsimp only
  split <;> rfl

theorem exists_mem_select :
    (∃ r ∈ select h candidates args view, r.method = m) ↔
      Preferred h candidates args view m := by
  simp only [select, List.mem_map]
  constructor
  · rintro ⟨_, ⟨r, hr, rfl⟩, rfl⟩
    rw [method_infer]
    obtain ⟨happ, hmax⟩ := mem_mostSpecific.mp hr
    obtain ⟨hmem, hfits, -⟩ := mem_applicable.mp happ
    refine ⟨hmem, hfits, fun k hk hkfits => ?_⟩
    obtain ⟨q, hq, rfl⟩ := exists_mem_applicable.mpr ⟨hk, hkfits⟩
    exact hmax q hq
  · rintro ⟨hmem, hfits, hmax⟩
    obtain ⟨r, hr, rfl⟩ := exists_mem_applicable.mpr ⟨hmem, hfits⟩
    refine ⟨r.infer args, ⟨r, mem_mostSpecific.mpr ⟨hr, fun q hq => ?_⟩, rfl⟩, method_infer r args⟩
    obtain ⟨hqmem, hqfits, -⟩ := mem_applicable.mp hq
    exact hmax q.method hqmem hqfits

end Overload

namespace Resolution

variable {found : List Resolution}

theorem mem_dropAbstract {r : Resolution} :
    r ∈ dropAbstract found ↔
      r ∈ found ∧ (r.method.isAbstract → ∀ k ∈ found, k.method.isAbstract) := by
  unfold dropAbstract
  split
  · next hany =>
    obtain ⟨k, hk, hbody⟩ := List.any_eq_true.mp hany
    rw [List.mem_filter]
    constructor
    · rintro ⟨hr, hrbody⟩
      exact ⟨hr, by simp_all⟩
    · rintro ⟨hr, hall⟩
      refine ⟨hr, ?_⟩
      by_contra hrabs
      have hkabs := hall (by simpa using hrabs) k hk
      simp [hkabs] at hbody
  · next hany =>
    have hall : ∀ k ∈ found, k.method.isAbstract := by simpa using hany
    exact ⟨fun hr => ⟨hr, fun _ => hall⟩, And.left⟩

theorem getElem?_bySignature (found : List Resolution) (s : Signature) :
    (bySignature found)[s]? = found.find? (·.method.signature = s) := by
  rw [bySignature, getElem?_foldl_insertIfNew (fun r : Resolution => r.method.signature) fun r => r]
  simp

theorem exists_mem_sortUnique {s : Signature} :
    (∃ r ∈ sortUnique found, r.method.signature = s) ↔ ∃ r ∈ found, r.method.signature = s := by
  simp only [sortUnique, List.mem_map]
  constructor
  · rintro ⟨r, ⟨⟨k, _⟩, hmem, rfl⟩, rfl⟩
    rw [Std.ExtTreeMap.mem_toList_iff_getElem?_eq_some, getElem?_bySignature] at hmem
    exact ⟨_, List.mem_of_find?_eq_some hmem, rfl⟩
  · rintro ⟨r, hr, rfl⟩
    have hsome : (found.find? (·.method.signature = r.method.signature)).isSome :=
      List.find?_isSome.mpr ⟨r, hr, by simp⟩
    obtain ⟨q, hq⟩ := Option.isSome_iff_exists.mp hsome
    have hsignature : q.method.signature = r.method.signature := by simpa using List.find?_some hq
    rw [← getElem?_bySignature, ← Std.ExtTreeMap.mem_toList_iff_getElem?_eq_some] at hq
    exact ⟨q, ⟨_, hq, rfl⟩, hsignature⟩

theorem exists_mem_finish {s : Signature} :
    (∃ r ∈ finish found, r.method.signature = s) ↔
      ∃ r ∈ found, r.method.signature = s ∧
        (r.method.isAbstract → ∀ k ∈ found, k.method.isAbstract) := by
  rw [finish, exists_mem_sortUnique]
  constructor
  · rintro ⟨r, hr, hs⟩
    obtain ⟨hmem, habs⟩ := mem_dropAbstract.mp hr
    exact ⟨r, hmem, hs, habs⟩
  · rintro ⟨r, hmem, hs, habs⟩
    exact ⟨r, mem_dropAbstract.mpr ⟨hmem, habs⟩, hs⟩

end Resolution

end JavaCallGraph
