import JavaCallGraph.Inference.Engine
import JavaCallGraph.Proofs.NameSets
import Mathlib.Tactic.ByContra

/-!
# Summaries by unrolling

What the summary of a body is when every summary that its walk asks for is made on the spot, one
inside the other, and nothing is kept. There is a value only if the nesting ends within the room
that is given. A value that is reached stays the same with more room.
-/

namespace JavaCallGraph

namespace Program

open Engine (returnSetBy writesBy Writes)

def answerFrom (p : Program) (summary : Signature → Option (Option BodySummary)) :
    Question → Option (Option ConstraintSet)
  | .returnSet m => returnSetBy summary m
  | .fieldSet key => (writesBy p summary key).map Writes.result

/-- The summary of a body, with `room` levels of nesting. What has no body has no summary. -/
def unrolled (p : Program) : (room : Nat) → Signature → Option (Option BodySummary)
  | 0, s => if (p.body? s).isSome then none else some none
  | room + 1, s => (Body.summarize p s).run (p.answerFrom (p.unrolled room))

def unrolledAnswer (p : Program) (room : Nat) : Question → Option (Option ConstraintSet) :=
  p.answerFrom (p.unrolled room)

variable {p : Program}

theorem summarize_of_body?_eq_none {s : Signature} (h : p.body? s = none) :
    Body.summarize p s = .done none := by
  simp [Body.summarize, h, pure]

/-! ### More room -/

def ExtendedBy {α β : Type} (f g : α → Option β) : Prop := ∀ a b, f a = some b → g a = some b

theorem ExtendedBy.eq_none {α β : Type} {f g : α → Option β} (h : ExtendedBy f g) {a : α}
    (hg : g a = none) : f a = none := by
  cases hf : f a with
  | none => rfl
  | some b => simp [h a b hf] at hg

theorem ExtendedBy.script_run {α : Type} {f g : Question → Option (Option ConstraintSet)}
    (h : ExtendedBy f g) (script : Script α) {a : α} (hf : script.run f = some a) :
    script.run g = some a := by
  induction script with
  | done b => exact hf
  | ask q next ih =>
    simp only [Script.run, Option.bind_eq_bind, Option.bind_eq_some_iff] at hf ⊢
    obtain ⟨answer, hq, hnext⟩ := hf
    exact ⟨answer, h q answer hq, ih answer hnext⟩

theorem ExtendedBy.writesBy {f g : Signature → Option (Option BodySummary)} (h : ExtendedBy f g)
    (key : FieldKey) {w : Writes} (hf : writesBy p f key = some w) : writesBy p g key = some w := by
  unfold Engine.writesBy at hf ⊢
  generalize Engine.writers p key.declaring = sigs, (({} : Writes)) = start at hf ⊢
  induction sigs generalizing start with
  | nil => exact hf
  | cons s sigs ih =>
    simp only [List.foldlM_cons, Option.bind_eq_bind, Option.bind_eq_some_iff] at hf ⊢
    obtain ⟨next, ⟨summary, hs, hnext⟩, hrest⟩ := hf
    exact ⟨next, ⟨summary, h s summary hs, hnext⟩, ih next hrest⟩

theorem ExtendedBy.answerFrom {f g : Signature → Option (Option BodySummary)} (h : ExtendedBy f g) :
    ExtendedBy (p.answerFrom f) (p.answerFrom g) := by
  intro q answer hf
  cases q with
  | returnSet m =>
    simp only [Program.answerFrom, returnSetBy, Option.bind_eq_bind,
      Option.bind_eq_some_iff] at hf ⊢
    obtain ⟨summary, hs, hanswer⟩ := hf
    exact ⟨summary, h m.signature summary hs, hanswer⟩
  | fieldSet key =>
    simp only [Program.answerFrom, Option.map_eq_some_iff] at hf ⊢
    obtain ⟨w, hw, hanswer⟩ := hf
    exact ⟨w, h.writesBy key hw, hanswer⟩

theorem unrolled_extendedBy_succ (p : Program) (room : Nat) :
    ExtendedBy (p.unrolled room) (p.unrolled (room + 1)) := by
  induction room with
  | zero =>
    intro s v h
    simp only [unrolled] at h
    split at h
    · cases h
    · next hbody =>
      rw [unrolled, summarize_of_body?_eq_none (by simpa using hbody)]
      exact h
  | succ room ih =>
    intro s v h
    exact ih.answerFrom.script_run (Body.summarize p s) h

theorem unrolled_extendedBy (p : Program) {room more : Nat} (h : room ≤ more) :
    ExtendedBy (p.unrolled room) (p.unrolled more) := by
  induction h with
  | refl => exact fun _ _ hv => hv
  | step _ ih => exact fun s v hv => unrolled_extendedBy_succ p _ s v (ih s v hv)

theorem unrolledAnswer_extendedBy (p : Program) {room more : Nat} (h : room ≤ more) :
    ExtendedBy (p.unrolledAnswer room) (p.unrolledAnswer more) :=
  (unrolled_extendedBy p h).answerFrom

theorem unrolled_unique {room more : Nat} {s : Signature} {v w : Option BodySummary}
    (hv : p.unrolled room s = some v) (hw : p.unrolled more s = some w) : v = w := by
  have hv' := unrolled_extendedBy p (Nat.le_max_left room more) s v hv
  have hw' := unrolled_extendedBy p (Nat.le_max_right room more) s w hw
  exact Option.some.inj (hv'.symm.trans hw')

theorem unrolledAnswer_unique {room more : Nat} {q : Question} {v w : Option ConstraintSet}
    (hv : p.unrolledAnswer room q = some v) (hw : p.unrolledAnswer more q = some w) : v = w := by
  have hv' := unrolledAnswer_extendedBy p (Nat.le_max_left room more) q v hv
  have hw' := unrolledAnswer_extendedBy p (Nat.le_max_right room more) q w hw
  exact Option.some.inj (hv'.symm.trans hw')

/-! ### Enough room -/

def StableAt (p : Program) (room : Nat) : Prop := p.unrolled (room + 1) = p.unrolled room

theorem StableAt.succ {room : Nat} (h : p.StableAt room) : p.StableAt (room + 1) := by
  funext s
  change Script.run (p.answerFrom (p.unrolled (room + 1))) _ =
    Script.run (p.answerFrom (p.unrolled room)) _
  rw [h]

theorem StableAt.of_le {room more : Nat} (h : p.StableAt room) (hle : room ≤ more) :
    p.StableAt more := by
  induction hle with
  | refl => exact h
  | step _ ih => exact ih.succ

theorem StableAt.unrolled_eq {room more : Nat} (h : p.StableAt room) (hle : room ≤ more) :
    p.unrolled more = p.unrolled room := by
  induction hle with
  | refl => rfl
  | step hle ih => exact (h.of_le hle).trans ih

theorem StableAt.extendedBy {room : Nat} (h : p.StableAt room) (other : Nat) :
    ExtendedBy (p.unrolled other) (p.unrolled room) := by
  rcases Nat.le_total other room with hle | hle
  · exact unrolled_extendedBy p hle
  · rw [h.unrolled_eq hle]
    exact fun _ _ hv => hv

/-- The bodies that have a value. -/
def settled (p : Program) (room : Nat) : List Signature :=
  p.bodies.keys.filter fun s => (p.unrolled room s).isSome

theorem mem_settled {room : Nat} {s : Signature} :
    s ∈ p.settled room ↔ (p.body? s).isSome ∧ (p.unrolled room s).isSome := by
  rw [settled, List.mem_filter, Std.ExtTreeMap.mem_keys, Std.ExtTreeMap.mem_iff_isSome_getElem?]
  rfl

theorem isSome_unrolled_of_body?_eq_none {s : Signature} (h : p.body? s = none) (room : Nat) :
    p.unrolled room s = some none := by
  apply unrolled_extendedBy p (Nat.zero_le room)
  simp [unrolled, h]

theorem settled_sublist_succ (p : Program) (room : Nat) :
    List.Sublist (p.settled room) (p.settled (room + 1)) := by
  apply List.monotone_filter_right
  intro s hs
  obtain ⟨v, hv⟩ := Option.isSome_iff_exists.mp hs
  simp [unrolled_extendedBy_succ p room s v hv]

theorem length_settled_lt {room : Nat} (h : ¬ p.StableAt room) :
    (p.settled room).length < (p.settled (room + 1)).length := by
  by_contra hlength
  have heq := (settled_sublist_succ p room).eq_of_length_le (Nat.le_of_not_lt hlength)
  apply h
  funext s
  cases hsucc : p.unrolled (room + 1) s with
  | none => exact ((unrolled_extendedBy_succ p room).eq_none hsucc).symm
  | some v =>
    cases hbody : p.body? s with
    | none =>
      rw [isSome_unrolled_of_body?_eq_none hbody] at hsucc ⊢
      exact hsucc.symm
    | some body =>
      have hmem : s ∈ p.settled (room + 1) := mem_settled.mpr (by simp [hbody, hsucc])
      rw [← heq] at hmem
      obtain ⟨w, hw⟩ := Option.isSome_iff_exists.mp (mem_settled.mp hmem).2
      rw [hw, unrolled_unique hw hsucc]

/-- As long as the values are not stable, at least one more body gets one at each level. -/
theorem stableAt_or_lt_length_settled (p : Program) (room : Nat) :
    p.StableAt room ∨ room < (p.settled (room + 1)).length := by
  induction room with
  | zero =>
    by_cases h : p.StableAt 0
    · exact .inl h
    · exact .inr (Nat.zero_lt_of_lt (length_settled_lt h))
  | succ room ih =>
    by_cases h : p.StableAt (room + 1)
    · exact .inl h
    · have hroom := ih.resolve_left fun hstable => h hstable.succ
      have hlt := length_settled_lt h
      exact .inr (by omega)

/-- Bodies that get no value, however much room there is. -/
def Endless (p : Program) (bodies : SignatureSet) : Prop :=
  ∀ s ∈ bodies, (p.body? s).isSome ∧ ∀ room, p.unrolled room s = none

theorem Endless.insert {bodies : SignatureSet} {s : Signature} (h : p.Endless bodies)
    (hbody : (p.body? s).isSome) (hs : ∀ room, p.unrolled room s = none) :
    p.Endless (bodies.insert s) := by
  intro t ht
  rcases mem_insert_iff.mp ht with rfl | ht
  · exact ⟨hbody, hs⟩
  · exact h t ht

/-- The deepest walk that ends fits into the room beside all bodies whose walks do not end. -/
def FitsIn (p : Program) (room : Nat) : Prop :=
  ∃ depth, p.StableAt depth ∧ ∀ bodies, p.Endless bodies → depth + bodies.size ≤ room

theorem FitsIn.stableAt {bodies : SignatureSet} {total room : Nat} (h : p.FitsIn total)
    (hbodies : p.Endless bodies) (hroom : total ≤ room + bodies.size) : p.StableAt room := by
  obtain ⟨depth, hstable, hdepth⟩ := h
  have hsize := hdepth bodies hbodies
  exact hstable.of_le (by omega)

open Classical in
theorem fitsIn_of_size_le {room : Nat} (h : p.bodies.size ≤ room) : p.FitsIn room := by
  let ending := p.bodies.keys.filter fun s => ∃ room, (p.unrolled room s).isSome
  refine ⟨ending.length, ?_, ?_⟩
  · refine (stableAt_or_lt_length_settled p _).resolve_right fun hlt => ?_
    have hsublist : (p.settled (ending.length + 1)).Sublist ending := by
      apply List.monotone_filter_right
      intro s hs
      exact decide_eq_true ⟨_, hs⟩
    exact absurd hsublist.length_le (Nat.not_le_of_lt hlt)
  · intro bodies hbodies
    have hnodup : (ending ++ bodies.toList).Nodup := by
      refine List.nodup_append.mpr ⟨?_, nodup_toList bodies, ?_⟩
      · exact List.Pairwise.filter _ Std.ExtTreeMap.nodup_keys
      · rintro s hs _ ht rfl
        obtain ⟨level, hsome⟩ := of_decide_eq_true (List.mem_filter.mp hs).2
        rw [(hbodies s (Std.ExtTreeSet.mem_toList.mp ht)).2] at hsome
        simp at hsome
    have hsubset : ∀ s ∈ ending ++ bodies.toList, s ∈ p.bodies.keys := by
      intro s hs
      rcases List.mem_append.mp hs with hs | hs
      · exact (List.mem_filter.mp hs).1
      · rw [Std.ExtTreeMap.mem_keys, Std.ExtTreeMap.mem_iff_isSome_getElem?]
        exact (hbodies s (Std.ExtTreeSet.mem_toList.mp hs)).1
    have hlength := (hnodup.subperm hsubset).length_le
    simp only [List.length_append, Std.ExtTreeSet.length_toList, Std.ExtTreeMap.length_keys]
      at hlength
    omega

end Program

end JavaCallGraph
