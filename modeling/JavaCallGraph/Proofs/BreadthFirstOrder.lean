import JavaCallGraph.Graph.Walk
import JavaCallGraph.Proofs.GraphEdges
import Mathlib.Data.List.Nodup
import Mathlib.Data.Set.Card

/-!
# Breadth-first order

The order in which a search meets the signatures around a start: first the start, then the
neighbours of each signature that has been met, taken in turn, each where it is met first. One step
more keeps the order and adds the next layer, the signatures whose shortest path is one step longer.
-/

namespace JavaCallGraph

section FirstOccurrences

variable {α : Type} [DecidableEq α] {l before : List α} {a : α}

theorem nodup_eraseDups (l : List α) : l.eraseDups.Nodup := by
  induction hn : l.length using Nat.strong_induction_on generalizing l with
  | _ n ih =>
    cases l with
    | nil => simp
    | cons a l =>
      have hshorter : (l.filter fun b => !b == a).length < n := by
        have hle := List.length_filter_le (fun b => !b == a) l
        simp only [List.length_cons] at hn
        omega
      rw [List.eraseDups_cons, List.nodup_cons]
      exact ⟨by simp, ih _ hshorter _ rfl⟩

theorem eraseDups_eq_self (h : l.Nodup) : l.eraseDups = l := by
  induction l with
  | nil => rfl
  | cons a l ih =>
    obtain ⟨ha, hl⟩ := List.nodup_cons.mp h
    have hkept : l.filter (fun b => !b == a) = l := by
      apply List.filter_eq_self.mpr
      intro b hb
      have hne : b ≠ a := fun heq => ha (heq ▸ hb)
      simp [hne]
    rw [List.eraseDups_cons, hkept, ih hl]

/-- What comes after a list without repetitions is met after it. -/
theorem eraseDups_append_of_nodup (h : before.Nodup) (l : List α) :
    (before ++ l).eraseDups = before ++ (l.removeAll before).eraseDups := by
  rw [List.eraseDups_append, eraseDups_eq_self h]

theorem eraseDups_append_eraseDups (before l : List α) :
    (before.eraseDups ++ l).eraseDups = (before ++ l).eraseDups := by
  rw [eraseDups_append_of_nodup (nodup_eraseDups before), List.eraseDups_append]
  simp [List.removeAll]

theorem eraseDups_append_cons_of_mem (ha : a ∈ before) (l : List α) :
    (before ++ a :: l).eraseDups = (before ++ l).eraseDups := by
  rw [List.eraseDups_append, List.eraseDups_append]
  simp [List.removeAll, ha]

end FirstOccurrences

namespace CallGraph

variable {g : CallGraph} {direction : Direction} {s t u start : Signature} {m n : Nat}

/-! ### Paths -/

inductive Path (g : CallGraph) (direction : Direction) : Nat → Signature → Signature → Prop where
  | refl (s : Signature) : Path g direction 0 s s
  | step {n : Nat} {s t u : Signature} (hpath : Path g direction n s t)
      (hnext : u ∈ g.neighbours direction t) : Path g direction (n + 1) s u

theorem path_zero_iff : g.Path direction 0 s t ↔ t = s := by
  constructor
  · intro h
    cases h
    rfl
  · rintro rfl
    exact .refl t

theorem Path.head (hfirst : t ∈ g.neighbours direction s) (hpath : g.Path direction n t u) :
    g.Path direction (n + 1) s u := by
  induction hpath with
  | refl t => exact .step (.refl s) hfirst
  | step _ hnext ih => exact .step (ih hfirst) hnext

/-- Both indices hold the same edges, so a path of calls is a path of callers back. -/
theorem path_callees_iff (hg : g.Inv) : g.Path .callees n s t ↔ g.Path .callers n t s := by
  constructor
  · intro h
    induction h with
    | refl s => exact .refl s
    | step _ hnext ih => exact ih.head ((hg.mirrored _ _).mp hnext)
  · intro h
    induction h with
    | refl s => exact .refl s
    | step _ hnext ih => exact ih.head ((hg.mirrored _ _).mpr hnext)

def Distance (g : CallGraph) (direction : Direction) (s : Signature) (n : Nat) (t : Signature) :
    Prop :=
  g.Path direction n s t ∧ ∀ m < n, ¬ g.Path direction m s t

theorem distance_callees_iff (hg : g.Inv) :
    g.Distance .callees s n t ↔ g.Distance .callers t n s := by
  simp only [Distance, path_callees_iff hg]

theorem Distance.unique (hm : g.Distance direction s m t) (hn : g.Distance direction s n t) :
    m = n := by
  rcases Nat.lt_trichotomy m n with hlt | heq | hgt
  · exact absurd hm.1 (hn.2 m hlt)
  · exact heq
  · exact absurd hn.1 (hm.2 n hgt)

theorem Path.exists_distance (h : g.Path direction n s t) :
    ∃ m ≤ n, g.Distance direction s m t := by
  induction n using Nat.strong_induction_on with
  | _ n ih =>
    by_cases hshorter : ∃ m < n, g.Path direction m s t
    · obtain ⟨m, hlt, hpath⟩ := hshorter
      obtain ⟨k, hle, hk⟩ := ih m hlt hpath
      exact ⟨k, by omega, hk⟩
    · push Not at hshorter
      exact ⟨n, Nat.le_refl n, h, hshorter⟩

/-- The signatures other than the start that can be reached, the farthest of them in `depth`
steps. -/
def near (g : CallGraph) (direction : Direction) (start : Signature) (depth : Nat) :
    Set Signature :=
  {t | ∃ n, 1 ≤ n ∧ n ≤ depth ∧ g.Distance direction start n t}

/-! ### The order -/

/-- All signatures at most so far from the start, in breadth-first order: the start, and then the
neighbours of each of them in turn, in their order, each where it is met first. -/
def breadthFirst (g : CallGraph) (direction : Direction) (start : Signature) :
    Nat → List Signature
  | 0 => [start]
  | n + 1 => (start :: (g.breadthFirst direction start n).flatMap fun s =>
      (g.neighbours direction s).toList).eraseDups

theorem nodup_breadthFirst (n : Nat) : (g.breadthFirst direction start n).Nodup := by
  cases n with
  | zero => simp [breadthFirst]
  | succ n => exact nodup_eraseDups _

theorem mem_breadthFirst : t ∈ g.breadthFirst direction start n ↔
    ∃ m ≤ n, g.Path direction m start t := by
  induction n generalizing t with
  | zero => simp [breadthFirst, path_zero_iff]
  | succ n ih =>
    simp only [breadthFirst, List.mem_eraseDups, List.mem_cons, List.mem_flatMap,
      Std.ExtTreeSet.mem_toList, ih]
    constructor
    · rintro (rfl | ⟨s, ⟨m, hm, hpath⟩, hnext⟩)
      · exact ⟨0, by omega, .refl t⟩
      · exact ⟨m + 1, by omega, .step hpath hnext⟩
    · rintro ⟨m, hm, hpath⟩
      cases hpath with
      | refl => exact .inl rfl
      | step hpath hnext => exact .inr ⟨_, ⟨_, by omega, hpath⟩, hnext⟩

theorem mem_breadthFirst_iff_near : t ∈ g.breadthFirst direction start n ↔
    t = start ∨ t ∈ g.near direction start n := by
  rw [mem_breadthFirst]
  constructor
  · rintro ⟨m, hm, hpath⟩
    obtain ⟨k, hk, hdistance⟩ := hpath.exists_distance
    cases k with
    | zero => exact .inl (path_zero_iff.mp hdistance.1)
    | succ k => exact .inr ⟨k + 1, by omega, by omega, hdistance⟩
  · rintro (rfl | ⟨m, -, hm, hdistance⟩)
    · exact ⟨0, by omega, .refl t⟩
    · exact ⟨m, hm, hdistance.1⟩

theorem start_not_mem_near : start ∉ g.near direction start n := by
  rintro ⟨m, hm, -, hdistance⟩
  exact hdistance.2 0 hm (.refl start)

def layer (g : CallGraph) (direction : Direction) (start : Signature) : Nat → List Signature
  | 0 => [start]
  | n + 1 => (g.breadthFirst direction start (n + 1)).drop
      (g.breadthFirst direction start n).length

/-- A step that meets more after all that was met keeps the order. -/
theorem breadthFirst_of_eraseDups {more : List Signature}
    (h : g.breadthFirst direction start (n + 1) =
      (g.breadthFirst direction start n ++ more).eraseDups) :
    g.breadthFirst direction start (n + 1) =
      g.breadthFirst direction start n ++ g.layer direction start (n + 1) := by
  rw [eraseDups_append_of_nodup (nodup_breadthFirst n)] at h
  rw [layer, h, List.drop_left]

/-- The next step meets the neighbours of the last layer: those of the layers before have been met
already. -/
theorem breadthFirst_succ (n : Nat) : g.breadthFirst direction start (n + 1) =
    (g.breadthFirst direction start n ++ (g.layer direction start n).flatMap fun s =>
      (g.neighbours direction s).toList).eraseDups := by
  induction n with
  | zero => rfl
  | succ n ih =>
    have hlast := breadthFirst_of_eraseDups ih
    calc g.breadthFirst direction start (n + 2)
        = ((start :: (g.breadthFirst direction start n).flatMap fun s =>
            (g.neighbours direction s).toList) ++ (g.layer direction start (n + 1)).flatMap fun s =>
              (g.neighbours direction s).toList).eraseDups := by
          rw [breadthFirst, hlast, List.flatMap_append, List.cons_append]
      _ = _ := by rw [← eraseDups_append_eraseDups, ← breadthFirst]

theorem breadthFirst_append_layer (n : Nat) : g.breadthFirst direction start (n + 1) =
    g.breadthFirst direction start n ++ g.layer direction start (n + 1) :=
  breadthFirst_of_eraseDups (breadthFirst_succ n)

theorem mem_layer : t ∈ g.layer direction start n ↔ g.Distance direction start n t := by
  cases n with
  | zero => simp [layer, Distance, path_zero_iff]
  | succ n =>
    have hnodup : (g.breadthFirst direction start (n + 1)).Nodup := nodup_breadthFirst (n + 1)
    have hnew : t ∈ g.layer direction start (n + 1) ↔
        t ∈ g.breadthFirst direction start (n + 1) ∧ t ∉ g.breadthFirst direction start n := by
      rw [breadthFirst_append_layer] at hnodup ⊢
      have hdisjoint := (List.nodup_append'.mp hnodup).2.2
      rw [List.mem_append]
      constructor
      · intro ht
        exact ⟨.inr ht, fun hold => hdisjoint hold ht⟩
      · rintro ⟨hold | ht, hnot⟩
        · exact absurd hold hnot
        · exact ht
    rw [hnew, mem_breadthFirst, mem_breadthFirst]
    constructor
    · rintro ⟨⟨m, hm, hpath⟩, hnone⟩
      have hlast : m = n + 1 := by
        by_contra hne
        exact hnone ⟨m, by omega, hpath⟩
      exact ⟨hlast ▸ hpath, fun k hk hshorter => hnone ⟨k, by omega, hshorter⟩⟩
    · rintro ⟨hpath, hshortest⟩
      refine ⟨⟨n + 1, Nat.le_refl _, hpath⟩, ?_⟩
      rintro ⟨m, hm, hshorter⟩
      exact hshortest m (by omega) hshorter

theorem ncard_near (n : Nat) :
    (g.near direction start n).ncard + 1 = (g.breadthFirst direction start n).length := by
  have hset : g.near direction start n =
      ((g.breadthFirst direction start n).toFinset.erase start : Finset Signature) := by
    ext t
    rw [Finset.coe_erase, Set.mem_sdiff, Finset.mem_coe, List.mem_toFinset,
      mem_breadthFirst_iff_near, Set.mem_singleton_iff]
    constructor
    · intro ht
      exact ⟨.inr ht, fun heq => start_not_mem_near (heq ▸ ht)⟩
    · rintro ⟨heq | ht, hne⟩
      · exact absurd heq hne
      · exact ht
  have hstart : start ∈ (g.breadthFirst direction start n).toFinset :=
    List.mem_toFinset.mpr (mem_breadthFirst_iff_near.mpr (.inl rfl))
  rw [hset, Set.ncard_coe_finset, Finset.card_erase_add_one hstart,
    List.toFinset_card_of_nodup (nodup_breadthFirst n)]

end CallGraph

end JavaCallGraph
