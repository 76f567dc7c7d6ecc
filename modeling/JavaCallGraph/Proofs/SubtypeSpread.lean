import JavaCallGraph.Proofs.HierarchyNodes
import JavaCallGraph.Proofs.HierarchySearch

/-!
# The work list of transitive subtypes

The loop is followed step by step, with any type of the work list taken next. What a step keeps is
`Spread.Inv`, and what it uses up is `Spread.slack`. So every run ends within a bound that is known
beforehand, and at its end a set holds exactly the types from which a chain leads to its type.
-/

namespace JavaCallGraph

namespace Spread

variable {table : TypeTable} {s t : Spread} {carried : NameSet}

/-! ### One supertype, and all of them -/

theorem mem_below_carry {sup key name : String} :
    name ∈ (carry carried s sup).below.namesOf key ↔
      name ∈ s.below.namesOf key ∨ (key = sup ∧ name ∈ carried) := by
  unfold carry
  dsimp only
  split
  · next hsize =>
    have hold := size_union_eq_left_iff.mp hsize
    constructor
    · exact Or.inl
    · rintro (h | ⟨rfl, h⟩)
      · exact h
      · exact hold name h
  · by_cases hkey : sup = key
    · subst hkey
      simp [NameMap.namesOf]
    · simp [NameMap.namesOf, Std.ExtTreeMap.getElem?_insert, hkey, Ne.symm hkey]

theorem mem_work_carry {sup key : String} :
    key ∈ (carry carried s sup).work ↔
      key ∈ s.work ∨ (key = sup ∧ ∃ name ∈ carried, name ∉ s.below.namesOf key) := by
  unfold carry
  dsimp only
  split
  · next hsize =>
    have hold := size_union_eq_left_iff.mp hsize
    constructor
    · exact Or.inl
    · rintro (h | ⟨rfl, name, hname, hnew⟩)
      · exact h
      · exact absurd (hold name hname) hnew
  · next hsize =>
    have hnew : ∃ name ∈ carried, name ∉ s.below.namesOf sup := by
      by_contra! hold
      exact hsize (size_union_eq_left_iff.mpr hold)
    rw [List.mem_cons]
    constructor
    · rintro (rfl | h)
      · exact .inr ⟨rfl, hnew⟩
      · exact .inl h
    · rintro (h | ⟨rfl, -⟩)
      · exact .inr h
      · exact .inl rfl

theorem mem_below_foldl_carry {sups : List String} {key name : String} :
    name ∈ (sups.foldl (carry carried) s).below.namesOf key ↔
      name ∈ s.below.namesOf key ∨ (key ∈ sups ∧ name ∈ carried) := by
  induction sups generalizing s with
  | nil => simp
  | cons sup sups ih =>
    rw [List.foldl_cons, ih, mem_below_carry, List.mem_cons]
    tauto

/-- A type is put back on the list exactly when its set grows. -/
theorem mem_work_foldl_carry {sups : List String} {key : String} :
    key ∈ (sups.foldl (carry carried) s).work ↔
      key ∈ s.work ∨ (key ∈ sups ∧ ∃ name ∈ carried, name ∉ s.below.namesOf key) := by
  induction sups generalizing s with
  | nil => simp
  | cons sup sups ih =>
    rw [List.foldl_cons, ih, mem_work_carry, List.mem_cons]
    simp only [mem_below_carry]
    constructor
    · rintro ((h | ⟨rfl, hnew⟩) | ⟨hsups, name, hname, hnew⟩)
      · exact .inl h
      · exact .inr ⟨.inl rfl, hnew⟩
      · exact .inr ⟨.inr hsups, name, hname, fun h => hnew (.inl h)⟩
    · rintro (h | ⟨rfl | hsups, hnew⟩)
      · exact .inl (.inl h)
      · exact .inl (.inr ⟨rfl, hnew⟩)
      · by_cases hkey : key = sup
        · exact .inl (.inr ⟨hkey, hnew⟩)
        · obtain ⟨name, hname, hnew⟩ := hnew
          exact .inr ⟨hsups, name, hname, by simp [hkey, hnew]⟩

theorem mem_sups_iff {name sup : String} :
    sup ∈ (table.supertypes name).filter (· != Descriptor.objectName) ↔
      table.Extends name sup ∧ sup ≠ Descriptor.objectName := by
  simp [TypeTable.Extends]

theorem mem_below_step {name key n : String} :
    n ∈ (step table name s).below.namesOf key ↔
      n ∈ s.below.namesOf key ∨ ((table.Extends name key ∧ key ≠ Descriptor.objectName) ∧
        (n = name ∨ n ∈ s.below.namesOf name)) := by
  rw [step, mem_below_foldl_carry, mem_sups_iff, mem_insert_iff]

theorem mem_work_step {name key : String} :
    key ∈ (step table name s).work ↔
      key ∈ s.work ∨ ((table.Extends name key ∧ key ≠ Descriptor.objectName) ∧
        ∃ n, (n = name ∨ n ∈ s.below.namesOf name) ∧ n ∉ s.below.namesOf key) := by
  rw [step, mem_work_foldl_carry, mem_sups_iff]
  simp only [mem_insert_iff]

/-! ### Steps -/

/-- Any type of the work list is taken next, and the rest of the list is left in any order. -/
def Step (table : TypeTable) (s t : Spread) : Prop :=
  ∃ name rest, s.work.Perm (name :: rest) ∧ t = step table name ⟨rest, s.below⟩

def Sound (table : TypeTable) (s : Spread) : Prop :=
  ∀ key name, name ∈ s.below.namesOf key → key ≠ Descriptor.objectName ∧ table.Chain name key

def HasEdges (table : TypeTable) (s : Spread) : Prop :=
  ∀ sub sup, table.Extends sub sup → sup ≠ Descriptor.objectName → sub ∈ s.below.namesOf sup

/-- The sets of types that are not on the list have been spread. -/
def Spreads (table : TypeTable) (s : Spread) : Prop :=
  ∀ sub sup, table.Extends sub sup → sup ≠ Descriptor.objectName → sub ∉ s.work →
    ∀ name ∈ s.below.namesOf sub, name ∈ s.below.namesOf sup

structure Inv (table : TypeTable) (s : Spread) : Prop where
  sound : Sound table s
  hasEdges : HasEdges table s
  spreads : Spreads table s
  listsSome : s.below.ListsSome
  work_mem : ∀ name ∈ s.work, name ∈ table

theorem Step.sound (h : Step table s t) (hs : Sound table s) : Sound table t := by
  obtain ⟨name, rest, -, rfl⟩ := h
  intro key n hn
  rcases mem_below_step.mp hn with hold | ⟨⟨hext, hkey⟩, rfl | hname⟩
  · exact hs key n hold
  · exact ⟨hkey, .edge hext⟩
  · obtain ⟨hne, hchain⟩ := hs name n hname
    exact ⟨hkey, hchain.snoc hne hext⟩

theorem Step.hasEdges (h : Step table s t) (hs : HasEdges table s) : HasEdges table t := by
  obtain ⟨name, rest, -, rfl⟩ := h
  intro sub sup hext hsup
  exact mem_below_step.mpr (.inl (hs sub sup hext hsup))

theorem Step.spreads (h : Step table s t) (hs : Spreads table s) : Spreads table t := by
  obtain ⟨name, rest, hwork, rfl⟩ := h
  intro sub sup hext hsup hsub n hn
  rw [mem_work_step] at hsub
  push Not at hsub
  obtain ⟨hrest, hgrown⟩ := hsub
  -- The set of `sub` has not grown in this step, or `sub` would be on the list again.
  have hold : n ∈ s.below.namesOf sub := by
    rcases mem_below_step.mp hn with hold | ⟨hname, hcarried⟩
    · exact hold
    · exact hgrown hname n hcarried
  rw [mem_below_step]
  by_cases hname : sub = name
  · subst hname
    exact .inr ⟨⟨hext, hsup⟩, .inr hold⟩
  · refine .inl (hs sub sup hext hsup ?_ n hold)
    rw [hwork.mem_iff, List.mem_cons]
    exact not_or.mpr ⟨hname, hrest⟩

theorem listsSome_foldl_carry {sups : List String} {name : String} (hname : name ∈ carried)
    (hs : s.below.ListsSome) : (sups.foldl (carry carried) s).below.ListsSome := by
  induction sups generalizing s with
  | nil => exact hs
  | cons sup sups ih =>
    apply ih
    unfold carry
    dsimp only
    split
    · exact hs
    · exact hs.insert (Std.ExtTreeSet.mem_union_of_right hname)

theorem Step.listsSome (h : Step table s t) (hs : s.below.ListsSome) : t.below.ListsSome := by
  obtain ⟨name, rest, -, rfl⟩ := h
  exact listsSome_foldl_carry Std.ExtTreeSet.mem_insert_self hs

theorem Step.work_mem (h : Step table s t) (hclosed : table.Closed)
    (hs : ∀ name ∈ s.work, name ∈ table) : ∀ name ∈ t.work, name ∈ table := by
  obtain ⟨name, rest, hwork, rfl⟩ := h
  intro key hkey
  rcases mem_work_step.mp hkey with hrest | ⟨⟨hext, -⟩, -⟩
  · exact hs key (hwork.mem_iff.mpr (List.mem_cons_of_mem name hrest))
  · exact hclosed name key hext

theorem Step.inv (h : Step table s t) (hclosed : table.Closed) (hs : Inv table s) :
    Inv table t where
  sound := h.sound hs.sound
  hasEdges := h.hasEdges hs.hasEdges
  spreads := h.spreads hs.spreads
  listsSome := h.listsSome hs.listsSome
  work_mem := h.work_mem hclosed hs.work_mem

theorem inv_start {stored : List (String × TypeNode)} (hstored : stored.Perm table.toList)
    {work : List String} (hwork : ∀ name, name ∈ work ↔ name ∈ table) :
    Inv table (start stored work) := by
  have hmem (key name : String) : name ∈ (start stored work).below.namesOf key ↔
      key ≠ Descriptor.objectName ∧ table.Extends name key := by
    rw [← TypeTable.mem_namesOf_subtypesOf hstored]
    by_cases hkey : key = Descriptor.objectName
    · simp [start, NameMap.namesOf, hkey]
    · simp [start, NameMap.namesOf, Std.ExtTreeMap.getElem?_erase, hkey, Ne.symm hkey]
  refine ⟨?_, ?_, ?_, ?_, ?_⟩
  · intro key name hname
    obtain ⟨hkey, hext⟩ := (hmem key name).mp hname
    exact ⟨hkey, .edge hext⟩
  · intro sub sup hext hsup
    exact (hmem sup sub).mpr ⟨hsup, hext⟩
  · intro sub sup hext _ hsub
    exact absurd ((hwork sub).mpr hext.mem) hsub
  · exact (TypeTable.listsSome_subtypesOf stored).erase _
  · exact fun name hname => (hwork name).mp hname

/-! ### The sets when the work is done -/

theorem Inv.mem_of_chain (h : Inv table s) (hwork : s.work = []) {sub sup : String}
    (hchain : table.Chain sub sup) (hsup : sup ≠ Descriptor.objectName) {name : String}
    (hname : name ∈ s.below.namesOf sub) : name ∈ s.below.namesOf sup := by
  induction hchain with
  | edge hext => exact h.spreads _ _ hext hsup (by simp [hwork]) name hname
  | step hext hmid _ ih => exact ih hsup (h.spreads _ _ hext hmid (by simp [hwork]) name hname)

theorem Inv.mem_below_iff (h : Inv table s) (hwork : s.work = []) {sub sup : String} :
    sub ∈ s.below.namesOf sup ↔ sup ≠ Descriptor.objectName ∧ table.Chain sub sup := by
  constructor
  · exact h.sound sup sub
  · rintro ⟨hsup, hchain⟩
    cases hchain with
    | edge hext => exact h.hasEdges sub sup hext hsup
    | step hext hmid hchain =>
      exact h.mem_of_chain hwork hchain hsup (h.hasEdges _ _ hext hmid)

/-! ### The number of steps -/

/-- What is left to do: types on the list, and places still free in the sets. -/
def slack (table : TypeTable) (s : Spread) : Nat :=
  s.work.length + totalWeight (fun key => table.size - (s.below.namesOf key).size) table.names

def Within (table : TypeTable) (s : Spread) : Prop :=
  ∀ key name, name ∈ s.below.namesOf key → name ∈ table

theorem Inv.within (h : Inv table s) : Within table s :=
  fun key name hname => (h.sound key name hname).2.mem

theorem size_le_of_mem_table {names : NameSet} (h : ∀ name ∈ names, name ∈ table) :
    names.size ≤ table.size := by
  have hkeys : names.toList.Subperm table.keys := by
    apply (nodup_toList names).subperm
    intro name hname
    rw [Std.ExtTreeMap.mem_keys]
    exact h name (Std.ExtTreeSet.mem_toList.mp hname)
  simpa using hkeys.length_le

theorem slack_carry_le {sup : String} (hs : Within table s) (hsup : sup ∈ table)
    (hcarried : ∀ name ∈ carried, name ∈ table) :
    slack table (carry carried s sup) ≤ slack table s := by
  unfold carry
  dsimp only
  split
  · exact Nat.le_refl _
  next hsize =>
  have hgrown : (s.below.namesOf sup ∪ carried).size ≤ table.size := by
    apply size_le_of_mem_table
    intro name hname
    rcases Std.ExtTreeSet.mem_union_iff.mp hname with h | h
    · exact hs sup name h
    · exact hcarried name h
  have hmore : (s.below.namesOf sup).size < (s.below.namesOf sup ∪ carried).size :=
    lt_of_le_of_ne Std.ExtTreeSet.size_left_le_size_union (Ne.symm hsize)
  have hsum : totalWeight (fun key => table.size -
        (NameMap.namesOf (s.below.insert sup (s.below.namesOf sup ∪ carried)) key).size)
          table.names <
      totalWeight (fun key => table.size - (s.below.namesOf key).size) table.names := by
    apply totalWeight_lt_totalWeight
    · intro key _
      by_cases hkey : sup = key
      · subst hkey
        simp only [NameMap.namesOf, Std.ExtTreeMap.getElem?_insert_self, Option.getD_some]
        exact Nat.sub_le_sub_left Std.ExtTreeSet.size_left_le_size_union _
      · simp [NameMap.namesOf, Std.ExtTreeMap.getElem?_insert, hkey]
    · exact TypeTable.mem_names.mpr hsup
    · simp only [NameMap.namesOf, Std.ExtTreeMap.getElem?_insert_self, Option.getD_some]
        at hgrown hmore ⊢
      omega
  simp only [slack, List.length_cons]
  omega

theorem slack_foldl_carry_le {sups : List String} (hs : Within table s)
    (hsups : ∀ sup ∈ sups, sup ∈ table) (hcarried : ∀ name ∈ carried, name ∈ table) :
    slack table (sups.foldl (carry carried) s) ≤ slack table s := by
  induction sups generalizing s with
  | nil => exact Nat.le_refl _
  | cons sup sups ih =>
    have hwithin : Within table (carry carried s sup) := by
      intro key name hname
      rcases mem_below_carry.mp hname with h | ⟨-, h⟩
      · exact hs key name h
      · exact hcarried name h
    calc slack table (sups.foldl (carry carried) (carry carried s sup))
      _ ≤ slack table (carry carried s sup) := ih hwithin fun k hk => hsups k (by simp [hk])
      _ ≤ slack table s := slack_carry_le hs (hsups sup (by simp)) hcarried

theorem Step.slack_lt (h : Step table s t) (hclosed : table.Closed) (hs : Inv table s) :
    slack table t < slack table s := by
  obtain ⟨name, rest, hperm, rfl⟩ := h
  have hname : name ∈ table := hs.work_mem name (hperm.mem_iff.mpr (by simp))
  have hsups (sup : String)
      (hsup : sup ∈ (table.supertypes name).filter (· != Descriptor.objectName)) :
      sup ∈ table := hclosed name sup (mem_sups_iff.mp hsup).1
  have hcarried (n : String) (hn : n ∈ (s.below.namesOf name).insert name) : n ∈ table := by
    rcases mem_insert_iff.mp hn with rfl | hn
    · exact hname
    · exact hs.within name n hn
  have hle : slack table (step table name ⟨rest, s.below⟩) ≤ slack table ⟨rest, s.below⟩ :=
    slack_foldl_carry_le hs.within hsups hcarried
  have hlength : s.work.length = rest.length + 1 := hperm.length_eq
  simp only [slack] at hle ⊢
  omega

theorem slack_start_le (table : TypeTable) (stored : List (String × TypeNode))
    (work : List String) : slack table (start stored work) ≤ limit table work := by
  have hfree := totalWeight_le_mul (s := table.names)
    (w := fun key => table.size - ((start stored work).below.namesOf key).size)
    fun _ _ => Nat.sub_le table.size _
  have hsize : table.names.size ≤ table.size :=
    size_le_of_mem_table fun _ => TypeTable.mem_names.mp
  have hlimit := Nat.le_trans hfree (Nat.mul_le_mul_right table.size hsize)
  exact Nat.add_le_add_left hlimit work.length

/-! ### Runs -/

inductive Steps (table : TypeTable) : Nat → Spread → Spread → Prop
  | refl {s : Spread} : Steps table 0 s s
  | head {n : Nat} {s t u : Spread} : Step table s t → Steps table n t u → Steps table (n + 1) s u

theorem Steps.inv {n : Nat} (h : Steps table n s t) (hclosed : table.Closed) (hs : Inv table s) :
    Inv table t := by
  induction h with
  | refl => exact hs
  | head hstep _ ih => exact ih (hstep.inv hclosed hs)

theorem Steps.add_slack_le {n : Nat} (h : Steps table n s t) (hclosed : table.Closed)
    (hs : Inv table s) : n + slack table t ≤ slack table s := by
  induction h with
  | refl => simp
  | head hstep _ ih =>
    have hlt := hstep.slack_lt hclosed hs
    have hrest := ih (hstep.inv hclosed hs)
    omega

/-- The loop takes such steps, and a limit that is not below the slack lets it end. -/
theorem steps_run (hclosed : table.Closed) {limit : Nat} (hs : Inv table s)
    (hlimit : slack table s ≤ limit) :
    ∃ n, Steps table n s (run table limit s) ∧ (run table limit s).work = [] := by
  fun_induction run table limit s with
  | case1 s =>
    have hlength : s.work.length = 0 := by
      simp only [slack] at hlimit
      omega
    exact ⟨0, .refl, List.eq_nil_of_length_eq_zero hlength⟩
  | case2 => exact ⟨0, .refl, rfl⟩
  | case3 limit name work below ih =>
    have hstep : Step table ⟨name :: work, below⟩ (step table name ⟨work, below⟩) :=
      ⟨name, work, .refl _, rfl⟩
    have hlt := hstep.slack_lt hclosed hs
    obtain ⟨n, hsteps, hwork⟩ := ih (hstep.inv hclosed hs) (by omega)
    exact ⟨n + 1, .head hstep hsteps, hwork⟩

end Spread

end JavaCallGraph
