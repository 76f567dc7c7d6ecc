import JavaCallGraph.Inference.Walk
import JavaCallGraph.Proofs.NameSets
import Mathlib.Order.Defs.PartialOrder

/-!
# How the state of a walk grows

Sets of runtime types, locals and summaries are ordered by what they have. A walk only ever adds:
no local and nothing that has been found out is lost, and as long as no change is noted the locals
that there are stay as they are.
-/

namespace JavaCallGraph

namespace ConstraintSet

variable {s t u : ConstraintSet}

/-- The second set has all that the first one has. -/
instance : Preorder ConstraintSet where
  le s t := (∀ name ∈ s.types, name ∈ t.types) ∧ (s.unresolved → t.unresolved)
  le_refl _ := ⟨fun _ => id, id⟩
  le_trans _ _ _ h h' := ⟨fun name hname => h'.1 name (h.1 name hname), fun hs => h'.2 (h.2 hs)⟩

theorem le_union_left (s t : ConstraintSet) : s ≤ s ∪ t :=
  ⟨fun _ h => Std.ExtTreeSet.mem_union_of_left h, fun h => by simp [h]⟩

theorem le_union_right (s t : ConstraintSet) : t ≤ s ∪ t :=
  ⟨fun _ h => Std.ExtTreeSet.mem_union_of_right h, fun h => by simp [h]⟩

theorem union_eq_left (h : t ≤ s) : s ∪ t = s := by
  have htypes : s.types ∪ t.types = s.types := by
    apply Std.ExtTreeSet.ext_mem
    intro name
    rw [Std.ExtTreeSet.mem_union_iff]
    exact ⟨fun hname => hname.elim id (h.1 name), .inl⟩
  have hopen : (s.unresolved || t.unresolved) = s.unresolved := by
    rw [Bool.or_eq_left_iff_imp]
    exact h.2
  change (⟨s.types ∪ t.types, s.unresolved || t.unresolved⟩ : ConstraintSet) = s
  rw [htypes, hopen]

theorem growsBy_eq_false : s.growsBy t = false ↔ t ≤ s := by
  rw [growsBy, Bool.or_eq_false_iff, bne_eq_false_iff_eq, bne_eq_false_iff_eq, types_union,
    size_union_eq_left_iff, unresolved_union, Bool.or_eq_left_iff_imp]
  rfl

end ConstraintSet

/-- The second local is of the same type and may hold more. -/
instance : Preorder Local where
  le l l' := l.type = l'.type ∧ l.set ≤ l'.set ∧ (l.assigned → l'.assigned)
  le_refl _ := ⟨rfl, le_rfl, id⟩
  le_trans _ _ _ h h' := ⟨h.1.trans h'.1, h.2.1.trans h'.2.1, fun ha => h'.2.2 (h.2.2 ha)⟩

namespace BodySummary

variable {a b : BodySummary}

/-- The second summary tells all that the first one tells. -/
instance : Preorder BodySummary where
  le a b := a.returns ≤ b.returns ∧
    (∀ (key : FieldKey) (set : ConstraintSet), a.writes[key]? = some set →
      ∃ set', b.writes[key]? = some set' ∧ set ≤ set') ∧
    ∀ c ∈ a.callees, c ∈ b.callees
  le_refl _ := ⟨le_rfl, fun _ set h => ⟨set, h, le_rfl⟩, fun _ => id⟩
  le_trans _ _ _ h h' := by
    refine ⟨h.1.trans h'.1, fun key set hset => ?_, fun c hc => h'.2.2 c (h.2.2 c hc)⟩
    obtain ⟨set', hset', hle⟩ := h.2.1 key set hset
    obtain ⟨set'', hset'', hle'⟩ := h'.2.1 key set' hset'
    exact ⟨set'', hset'', hle.trans hle'⟩

/-- Something is added that is not added a second time. The callees among it do not depend on what
there was before. -/
structure Adds (f : BodySummary → BodySummary) : Prop where
  le : ∀ a, a ≤ f a
  again : ∀ {a b}, f a ≤ b → f b = b
  callees : ∀ {a} b, ∀ c ∈ (f a).callees, c ∈ a.callees ∨ c ∈ (f b).callees

theorem adds_addCallees (found : List Signature) : Adds (·.addCallees found) where
  le _ := ⟨le_rfl, fun _ set h => ⟨set, h, le_rfl⟩,
    fun _ hc => Std.ExtTreeSet.mem_insertMany_list.mpr (.inl hc)⟩
  again {a b} h := by
    have hcallees : b.callees.insertMany found = b.callees := by
      apply Std.ExtTreeSet.ext_mem
      intro c
      rw [Std.ExtTreeSet.mem_insertMany_list]
      refine ⟨fun hc => hc.elim id fun hc => ?_, .inl⟩
      exact h.2.2 c (Std.ExtTreeSet.mem_insertMany_list.mpr (.inr hc))
    rw [addCallees, hcallees]
  callees _ _ hc := (Std.ExtTreeSet.mem_insertMany_list.mp hc).imp_right fun hc =>
    Std.ExtTreeSet.mem_insertMany_list.mpr (.inr hc)

theorem adds_addReturn (set : ConstraintSet) : Adds (·.addReturn set) where
  le _ := ⟨ConstraintSet.le_union_left _ _, fun _ set h => ⟨set, h, le_rfl⟩, fun _ => id⟩
  again {a b} h := by
    have hset : set ≤ b.returns := (ConstraintSet.le_union_right _ _).trans h.1
    rw [addReturn, ConstraintSet.union_eq_left hset]
  callees _ _ := .inl

theorem adds_addWrite (key : FieldKey) (set : ConstraintSet) : Adds (·.addWrite key set) where
  le a := by
    refine ⟨le_rfl, fun other known hknown => ?_, fun _ => id⟩
    by_cases hkey : key = other
    · subst hkey
      exact ⟨known ∪ set, by simp [addWrite, hknown], ConstraintSet.le_union_left _ _⟩
    · exact ⟨known, by simp [addWrite, Std.ExtTreeMap.getElem?_alter, hkey, hknown], le_rfl⟩
  again {a b} h := by
    obtain ⟨known, hknown, hle⟩ := h.2.1 key (a.writes[key]?.getD .empty ∪ set)
      (by simp [addWrite])
    have hset : set ≤ known := (ConstraintSet.le_union_right _ _).trans hle
    have hwrites : b.writes.alter key (fun known? => some (known?.getD .empty ∪ set)) =
        b.writes := by
      apply Std.ExtTreeMap.ext_getElem?
      intro other
      rw [Std.ExtTreeMap.getElem?_alter]
      split
      · next hkey =>
        obtain rfl := Std.LawfulEqOrd.eq_of_compare hkey
        rw [hknown, Option.getD_some, ConstraintSet.union_eq_left hset]
      · rfl
    rw [addWrite, hwrites]
  callees _ _ := .inl

end BodySummary

namespace WalkState

variable {s t u : WalkState}

/-- The second state comes after the first one: locals keep their types and may hold more, and all
that has been found out is still there. If no change is noted, the locals of the first state are
as they were. -/
structure Extends (s t : WalkState) : Prop where
  locals : ∀ (name : String) (l : Local), s.locals[name]? = some l →
    ∃ l', t.locals[name]? = some l' ∧ l ≤ l'
  changed : s.changed → t.changed
  kept : t.changed = false → ∀ (name : String) (l : Local), s.locals[name]? = some l →
    t.locals[name]? = some l
  summary : s.summary ≤ t.summary

namespace Extends

theorem refl (s : WalkState) : s.Extends s :=
  ⟨fun _ l h => ⟨l, h, le_rfl⟩, id, fun _ _ _ h => h, le_rfl⟩

theorem unchanged (h : s.Extends t) (ht : t.changed = false) : s.changed = false :=
  Bool.eq_false_iff.mpr fun hs => by simp [h.changed hs] at ht

theorem trans (h : s.Extends t) (h' : t.Extends u) : s.Extends u where
  locals name l hl := by
    obtain ⟨l', hl', hle⟩ := h.locals name l hl
    obtain ⟨l'', hl'', hle'⟩ := h'.locals name l' hl'
    exact ⟨l'', hl'', hle.trans hle'⟩
  changed hs := h'.changed (h.changed hs)
  kept hu name l hl := h'.kept hu name l (h.kept (h'.unchanged hu) name l hl)
  summary := h.summary.trans h'.summary

end Extends

theorem extends_add {f : BodySummary → BodySummary} (hf : BodySummary.Adds f) (s : WalkState) :
    s.Extends { s with summary := f s.summary } :=
  ⟨fun _ l h => ⟨l, h, le_rfl⟩, id, fun _ _ _ h => h, hf.le s.summary⟩

/-! ### Declarations -/

theorem getElem?_declare_of_some {name other : String} {l known : Local}
    (h : s.locals[other]? = some known) : (s.declare name l).locals[other]? = some known := by
  rw [declare, Std.ExtTreeMap.getElem?_insertIfNew, if_neg, h]
  rintro ⟨heq, hnot⟩
  obtain rfl := Std.LawfulEqOrd.eq_of_compare heq
  exact hnot (Std.ExtTreeMap.mem_iff_isSome_getElem?.mpr (by simp [h]))

theorem mem_declare {name other : String} {l : Local} :
    other ∈ (s.declare name l).locals ↔ other = name ∨ other ∈ s.locals := by
  rw [declare, Std.ExtTreeMap.mem_insertIfNew, Std.LawfulEqCmp.compare_eq_iff_eq, eq_comm]

theorem extends_declare (s : WalkState) (name : String) (l : Local) :
    s.Extends (s.declare name l) :=
  ⟨fun _ known h => ⟨known, getElem?_declare_of_some h, le_rfl⟩, id,
    fun _ _ _ h => getElem?_declare_of_some h, le_rfl⟩

theorem declare_of_mem {name : String} (h : name ∈ s.locals) (l : Local) :
    s.declare name l = s := by
  have hlocals : s.locals.insertIfNew name l = s.locals := by
    apply Std.ExtTreeMap.ext_getElem?
    intro other
    rw [Std.ExtTreeMap.getElem?_insertIfNew, if_neg]
    rintro ⟨heq, hnot⟩
    obtain rfl := Std.LawfulEqOrd.eq_of_compare heq
    exact hnot h
  rw [declare, hlocals]

/-! ### Assignments -/

variable {name : String} {set : ConstraintSet} {l : Local}

theorem assign?_of_none (h : s.locals[name]? = none) : s.assign? name set = none := by
  rw [assign?, h]
  rfl

theorem assign?_of_some (h : s.locals[name]? = some l) : s.assign? name set = some
    { s with
      locals := s.locals.insert name { l with set := l.set ∪ set, assigned := true }
      changed := s.changed || !l.assigned || l.set.growsBy set } := by
  rw [assign?, h]
  rfl

theorem mem_of_assign? (h : s.assign? name set = some t) {other : String} :
    other ∈ t.locals ↔ other ∈ s.locals := by
  obtain ⟨l, hl, rfl⟩ := Option.map_eq_some_iff.mp h
  rw [Std.ExtTreeMap.mem_insert, Std.LawfulEqCmp.compare_eq_iff_eq, or_iff_right_iff_imp]
  rintro rfl
  exact Std.ExtTreeMap.mem_iff_isSome_getElem?.mpr (by simp [hl])

/-- An assignment that changes nothing adds nothing to its local. -/
theorem le_of_assign?_unchanged (hl : s.locals[name]? = some l)
    (h : s.assign? name set = some t) (ht : t.changed = false) :
    s.changed = false ∧ l.assigned ∧ set ≤ l.set := by
  rw [assign?_of_some hl] at h
  cases h
  simp only [Bool.or_eq_false_iff, Bool.not_eq_false', ConstraintSet.growsBy_eq_false] at ht
  exact ⟨ht.1.1, ht.1.2, ht.2⟩

theorem assign?_eq_self (hs : s.changed = false) (hl : s.locals[name]? = some l)
    (hassigned : l.assigned) (hset : set ≤ l.set) : s.assign? name set = some s := by
  have hlocal : ({ l with set := l.set ∪ set, assigned := true } : Local) = l := by
    rw [ConstraintSet.union_eq_left hset, ← hassigned]
  have hlocals : s.locals.insert name l = s.locals := by
    apply Std.ExtTreeMap.ext_getElem?
    intro other
    rw [Std.ExtTreeMap.getElem?_insert]
    split
    · next heq =>
      obtain rfl := Std.LawfulEqOrd.eq_of_compare heq
      exact hl.symm
    · rfl
  rw [assign?_of_some hl, hlocal, hlocals, ConstraintSet.growsBy_eq_false.mpr hset, hassigned, hs]
  simp only [Bool.not_true, Bool.or_false]
  rw [← hs]

theorem extends_of_assign? (h : s.assign? name set = some t) : s.Extends t := by
  obtain ⟨l, hl, rfl⟩ := Option.map_eq_some_iff.mp h
  refine ⟨fun other known hknown => ?_, fun hs => by simp [hs], fun ht => ?_, le_rfl⟩
  · simp only [Std.ExtTreeMap.getElem?_insert, Std.LawfulEqCmp.compare_eq_iff_eq]
    by_cases hother : name = other
    · subst hother
      cases hl.symm.trans hknown
      exact ⟨_, if_pos rfl, rfl, ConstraintSet.le_union_left _ _, fun _ => rfl⟩
    · exact ⟨known, by simp [hother, hknown], le_rfl⟩
  · obtain ⟨hs, hassigned, hset⟩ := le_of_assign?_unchanged hl h ht
    rw [assign?_eq_self hs hl hassigned hset] at h
    intro other known hknown
    rw [← Option.some.inj h]
    exact hknown

theorem extends_assign (s : WalkState) (name : String) (set : ConstraintSet) :
    s.Extends (s.assign name set) := by
  rw [assign]
  cases h : s.assign? name set with
  | none => exact .refl s
  | some t => exact extends_of_assign? h

theorem mem_assign {other : String} : other ∈ (s.assign name set).locals ↔ other ∈ s.locals := by
  rw [assign]
  cases h : s.assign? name set with
  | none => rfl
  | some t => exact mem_of_assign? h

end WalkState

end JavaCallGraph
