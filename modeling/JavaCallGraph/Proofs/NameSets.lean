import JavaCallGraph.Hierarchy.Closure
import Mathlib.Algebra.Order.BigOperators.Group.List
import Mathlib.Algebra.Order.Group.Nat
import Mathlib.Data.List.Induction
import Mathlib.Data.List.Perm.Subperm

/-!
# Finite sets and maps of names

Sizes and equality of the sets and of the maps to sets that the indices are made of. A union that
is no larger than its first part adds nothing. A map in which every key lists some name is
determined by what it lists.
-/

namespace JavaCallGraph

section Sets

variable {α : Type} [Ord α] [Std.TransOrd α] [Std.LawfulEqOrd α] {s t : Std.ExtTreeSet α}

theorem mem_insert_iff {a b : α} : b ∈ s.insert a ↔ b = a ∨ b ∈ s := by
  rw [Std.ExtTreeSet.mem_insert, Std.LawfulEqCmp.compare_eq_iff_eq, eq_comm]

theorem mem_erase_iff {a b : α} : b ∈ s.erase a ↔ b ≠ a ∧ b ∈ s := by
  rw [Std.ExtTreeSet.mem_erase, ne_eq, Std.LawfulEqCmp.compare_eq_iff_eq, eq_comm]

theorem erase_insert_of_not_mem {a : α} (h : a ∉ s) : (s.insert a).erase a = s := by
  apply Std.ExtTreeSet.ext_mem
  intro b
  by_cases hb : a = b
  · subst hb
    simp [h]
  · simp [hb]

theorem toList_subperm_of_subset (h : ∀ a ∈ s, a ∈ t) : s.toList.Subperm t.toList := by
  apply (nodup_toList s).subperm
  intro a ha
  rw [Std.ExtTreeSet.mem_toList] at ha ⊢
  exact h a ha

theorem eq_of_subset_of_size_le (h : ∀ a ∈ s, a ∈ t) (hsize : t.size ≤ s.size) : s = t := by
  apply Std.ExtTreeSet.ext_toList
  exact (toList_subperm_of_subset h).perm_of_length_le (by simpa using hsize)

theorem size_union_eq_left_iff : (s ∪ t).size = s.size ↔ ∀ a ∈ t, a ∈ s := by
  constructor
  · intro hsize a ha
    have hs : s = s ∪ t := eq_of_subset_of_size_le (by simp +contextual) (Nat.le_of_eq hsize)
    rw [hs]
    exact Std.ExtTreeSet.mem_union_of_right ha
  · intro h
    congr 1
    apply Std.ExtTreeSet.ext_mem
    intro a
    rw [Std.ExtTreeSet.mem_union_iff]
    exact ⟨fun ha => ha.elim id (h a), Or.inl⟩

theorem totalWeight_lt_totalWeight {v w : α → Nat} (hle : ∀ a ∈ s, v a ≤ w a) {a : α}
    (ha : a ∈ s) (hlt : v a < w a) : totalWeight v s < totalWeight w s := by
  unfold totalWeight
  rw [← List.sum_eq_foldr, ← List.sum_eq_foldr]
  apply List.sum_lt_sum
  · intro b hb
    exact hle b (Std.ExtTreeSet.mem_toList.mp hb)
  · exact ⟨a, Std.ExtTreeSet.mem_toList.mpr ha, hlt⟩

theorem totalWeight_le_mul {w : α → Nat} {bound : Nat} (h : ∀ a ∈ s, w a ≤ bound) :
    totalWeight w s ≤ s.size * bound := by
  have hsum := List.sum_le_card_nsmul (s.toList.map w) bound (by simpa using h)
  rw [totalWeight, ← List.sum_eq_foldr]
  simpa using hsum

theorem forall_getElem?_insert {β : Type} {m : Std.ExtTreeMap α β} {P : α → β → Prop}
    (hm : ∀ a b, m[a]? = some b → P a b) {a : α} {b : β} (hab : P a b) :
    ∀ c d, (m.insert a b)[c]? = some d → P c d := by
  intro c d h
  rw [Std.ExtTreeMap.getElem?_insert] at h
  split at h
  · next hac =>
    obtain rfl := Std.LawfulEqOrd.eq_of_compare hac
    cases h
    exact hab
  · exact hm c d h

theorem getElem?_foldl_insertIfNew [DecidableEq α] {ι β : Type} (key : ι → α) (value : ι → β)
    (items : List ι) (m : Std.ExtTreeMap α β) (a : α) :
    (items.foldl (fun m i => m.insertIfNew (key i) (value i)) m)[a]? =
      m[a]?.or ((items.find? (key · = a)).map value) := by
  induction items generalizing m with
  | nil => simp
  | cons i items ih =>
    rw [List.foldl_cons, ih, Std.ExtTreeMap.getElem?_insertIfNew]
    by_cases ha : key i = a
    · subst ha
      cases hm : m[key i]? <;> simp [Std.ExtTreeMap.mem_iff_isSome_getElem?, hm]
    · simp [ha]

theorem getElem?_foldl_insert [DecidableEq α] {ι β : Type} (key : ι → α) (value : ι → β)
    (items : List ι) (a : α) :
    (items.foldl (fun (m : Std.ExtTreeMap α β) i => m.insert (key i) (value i)) ∅)[a]? =
      (items.reverse.find? (key · = a)).map value := by
  induction items using List.reverseRecOn with
  | nil => simp
  | append_singleton items i ih =>
    rw [List.foldl_append, List.foldl_cons, List.foldl_nil, List.reverse_append,
      List.reverse_singleton, List.singleton_append, List.find?_cons,
      Std.ExtTreeMap.getElem?_insert]
    by_cases ha : key i = a
    · simp [ha]
    · simpa [ha] using ih

theorem foldl_insert_toList [DecidableEq α] {β : Type} (m : Std.ExtTreeMap α β) :
    m.toList.foldl (fun m p => m.insert p.1 p.2) ∅ = m := by
  apply Std.ExtTreeMap.ext_getElem?
  intro a
  rw [getElem?_foldl_insert Prod.fst Prod.snd]
  cases ha : m[a]? with
  | none =>
    rw [List.find?_eq_none.mpr, Option.map_none]
    intro p hp heq
    have hp := Std.ExtTreeMap.mem_toList_iff_getElem?_eq_some.mp (List.mem_reverse.mp hp)
    rw [of_decide_eq_true heq, ha] at hp
    cases hp
  | some b =>
    have hmem := Std.ExtTreeMap.mem_toList_iff_getElem?_eq_some.mpr ha
    obtain ⟨p, hp⟩ : ∃ p, m.toList.reverse.find? (·.1 = a) = some p :=
      Option.isSome_iff_exists.mp
        (List.find?_isSome.mpr ⟨(a, b), List.mem_reverse.mpr hmem, decide_eq_true rfl⟩)
    have hkey : p.1 = a := by simpa using List.find?_some hp
    have hvalue := Std.ExtTreeMap.mem_toList_iff_getElem?_eq_some.mp
      (List.mem_reverse.mp (List.mem_of_find?_eq_some hp))
    rw [hkey, ha] at hvalue
    rw [hp, Option.map_some, hvalue]

omit [Std.LawfulEqOrd α] in
theorem values_eq_map_toList {β : Type} (m : Std.ExtTreeMap α β) :
    m.values = m.toList.map Prod.snd := by
  obtain ⟨m⟩ := m
  induction m using Std.ExtDTreeMap.inductionOn with
  | mk m =>
    change Std.DTreeMap.Internal.Impl.values m.inner =
      (Std.DTreeMap.Internal.Impl.Const.toList m.inner).map Prod.snd
    rw [Std.DTreeMap.Internal.Impl.values_eq_map_snd,
      Std.DTreeMap.Internal.Impl.Const.toList_eq_toListModel_map, List.map_map]
    rfl

/-- A map to sets none of which is empty is determined by what it lists under each key. -/
theorem eq_of_mem_getD_iff {β : Type} [Ord β] [Std.TransOrd β] [Std.LawfulEqOrd β]
    {m n : Std.ExtTreeMap α (Std.ExtTreeSet β)}
    (hm : ∀ (a : α) (u : Std.ExtTreeSet β), m[a]? = some u → ∃ b, b ∈ u)
    (hn : ∀ (a : α) (u : Std.ExtTreeSet β), n[a]? = some u → ∃ b, b ∈ u)
    (h : ∀ (a : α) (b : β), b ∈ m[a]?.getD ∅ ↔ b ∈ n[a]?.getD ∅) : m = n := by
  have hsets (a : α) : m[a]?.getD ∅ = n[a]?.getD ∅ := Std.ExtTreeSet.ext_mem fun b => h a b
  apply Std.ExtTreeMap.ext_getElem?
  intro a
  have ha := hsets a
  cases hma : m[a]? with
  | none =>
    cases hna : n[a]? with
    | none => rfl
    | some u =>
      obtain ⟨b, hb⟩ := hn a u hna
      rw [hma, hna, Option.getD_none, Option.getD_some] at ha
      simp [← ha] at hb
  | some u =>
    cases hna : n[a]? with
    | none =>
      obtain ⟨b, hb⟩ := hm a u hma
      rw [hma, hna, Option.getD_none, Option.getD_some] at ha
      simp [ha] at hb
    | some v => simpa [hma, hna] using ha

end Sets

namespace NameMap

theorem mem_namesOf_foldl_addName {pairs : List (String × String)} {m : NameMap NameSet}
    {key name : String} :
    name ∈ namesOf (pairs.foldl (fun m (key, name) => addName m key name) m) key ↔
      (key, name) ∈ pairs ∨ name ∈ namesOf m key := by
  induction pairs generalizing m with
  | nil => simp
  | cons p pairs ih =>
    rw [List.foldl_cons, ih, mem_namesOf_addName, List.mem_cons, Prod.mk.injEq]
    tauto

@[simp] theorem mem_namesOf_ofPairs {pairs : List (String × String)} {key name : String} :
    name ∈ namesOf (ofPairs pairs) key ↔ (key, name) ∈ pairs := by
  rw [ofPairs, mem_namesOf_foldl_addName]
  simp [namesOf]

@[simp] theorem mem_namesOf_inverseOf {listed : List (String × NameSet)} {key name : String} :
    name ∈ namesOf (inverseOf listed) key ↔ ∃ names, (name, names) ∈ listed ∧ key ∈ names := by
  simp only [inverseOf, mem_namesOf_ofPairs, List.mem_flatMap, List.mem_map, Prod.mk.injEq]
  constructor
  · rintro ⟨⟨k, names⟩, hl, n, hn, rfl, rfl⟩
    exact ⟨names, hl, by simpa using hn⟩
  · rintro ⟨names, hl, hn⟩
    exact ⟨(name, names), hl, key, by simpa using hn, rfl, rfl⟩

def ListsSome (m : NameMap NameSet) : Prop :=
  ∀ (key : String) (names : NameSet), m[key]? = some names → ∃ name, name ∈ names

theorem ListsSome.insert {m : NameMap NameSet} (hm : ListsSome m) {key name : String}
    {names : NameSet} (hn : name ∈ names) : ListsSome (Std.ExtTreeMap.insert m key names) :=
  forall_getElem?_insert hm ⟨name, hn⟩

theorem ListsSome.erase {m : NameMap NameSet} (hm : ListsSome m) (key : String) :
    ListsSome (Std.ExtTreeMap.erase m key) := by
  intro k ns h
  rw [Std.ExtTreeMap.getElem?_erase] at h
  split at h
  · simp at h
  · exact hm k ns h

theorem listsSome_foldl_addName {pairs : List (String × String)} {m : NameMap NameSet}
    (hm : ListsSome m) :
    ListsSome (pairs.foldl (fun m (key, name) => addName m key name) m) := by
  induction pairs generalizing m with
  | nil => exact hm
  | cons p pairs ih =>
    obtain ⟨key, name⟩ := p
    apply ih
    intro k ns h
    simp only [addName, Std.ExtTreeMap.getElem?_alter] at h
    split at h
    · exact ⟨name, Option.some.inj h ▸ Std.ExtTreeSet.mem_insert_self⟩
    · exact hm k ns h

theorem listsSome_ofPairs (pairs : List (String × String)) : ListsSome (ofPairs pairs) :=
  listsSome_foldl_addName (by intro key names h; simp at h)

theorem ext_namesOf {m n : NameMap NameSet} (hm : ListsSome m) (hn : ListsSome n)
    (h : ∀ key name, name ∈ namesOf m key ↔ name ∈ namesOf n key) : m = n :=
  eq_of_mem_getD_iff hm hn h

/-- A map turns round to the same map in whatever order it is listed. -/
theorem inverseOf_eq_of_perm {m : NameMap NameSet} {listed : List (String × NameSet)}
    (h : listed.Perm m.toList) : inverseOf listed = inverse m := by
  have hsome (l : List (String × NameSet)) : ListsSome (inverseOf l) := listsSome_ofPairs _
  apply ext_namesOf (hsome _) (hsome _)
  intro key name
  rw [mem_namesOf_inverseOf, mem_namesOf_inverseOf]
  simp only [h.mem_iff]

end NameMap

end JavaCallGraph
