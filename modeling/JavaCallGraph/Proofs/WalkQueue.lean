import JavaCallGraph.Proofs.BoundedWalks
import JavaCallGraph.Proofs.RootReachability

/-!
# Searches with a queue

A walk can keep its signatures in a queue, each with its distance from the start, instead of going
from level to level. The queue then holds the rest of one level and what has been met of the next
one, so both ways give the same reports. For what the framework root reaches the order does not
matter: a queue of what is met for the first time ends with the same set.
-/

namespace JavaCallGraph

namespace CallGraph

open Progress
open Relation (TransGen)

variable {g : CallGraph} {stop : Progress → Bool} {direction : Direction} {p out out' : Progress}
  {limit : Nat} {queue : List (Signature × Nat)}

/-! ### Walks -/

def Progress.since (p next : Progress) : List Signature :=
  (next.entries.toList.drop p.entries.size).map WalkEntry.target

def expand (g : CallGraph) (stop : Progress → Bool) (direction : Direction) (s : Signature)
    (depth : Nat) (p : Progress) : Progress :=
  (g.neighbours direction s).toList.foldl (visit stop depth s) p

/-- The runs of a walk with a queue. It is over when the queue is empty or enough has been seen.
A signature at the limit is passed over. Any other has its neighbours visited, and those that are
reported are put at the end of the queue. -/
inductive QueueRun (g : CallGraph) (stop : Progress → Bool) (direction : Direction) (limit : Nat) :
    List (Signature × Nat) → Progress → Progress → Prop
  | empty {p : Progress} : QueueRun g stop direction limit [] p p
  | full {p : Progress} {item : Signature × Nat} {queue : List (Signature × Nat)} (hp : stop p) :
    QueueRun g stop direction limit (item :: queue) p p
  | pass {p out : Progress} {s : Signature} {depth : Nat} {queue : List (Signature × Nat)}
    (hp : ¬ stop p) (hdepth : limit ≤ depth) (hrest : QueueRun g stop direction limit queue p out) :
    QueueRun g stop direction limit ((s, depth) :: queue) p out
  | visit {p out : Progress} {s : Signature} {depth : Nat} {queue : List (Signature × Nat)}
    (hp : ¬ stop p) (hdepth : depth < limit)
    (hrest : QueueRun g stop direction limit
      (queue ++ (p.since (g.expand stop direction s (depth + 1) p)).map (·, depth + 1))
      (g.expand stop direction s (depth + 1) p) out) :
    QueueRun g stop direction limit ((s, depth) :: queue) p out

theorem QueueRun.unique (h : g.QueueRun stop direction limit queue p out)
    (h' : g.QueueRun stop direction limit queue p out') : out = out' := by
  induction h with
  | empty =>
    cases h'
    rfl
  | full hp =>
    cases h' with
    | full => rfl
    | pass hp' => exact absurd hp hp'
    | visit hp' => exact absurd hp hp'
  | pass hp hdepth _ ih =>
    cases h' with
    | full hp' => exact absurd hp' hp
    | pass _ _ hrest => exact ih hrest
    | visit _ hdepth' => omega
  | visit hp hdepth _ ih =>
    cases h' with
    | full hp' => exact absurd hp' hp
    | pass _ hdepth' => omega
    | visit _ _ hrest => exact ih hrest

/-! Once enough has been seen, nothing changes any more. -/

theorem visit_of_stop (hp : stop p) (depth : Nat) (source target : Signature) :
    visit stop depth source p target = p := by
  simp [visit, hp]

theorem walkLevel_of_stop (hp : stop p) (depth : Nat) (level : List Signature) :
    g.walkLevel stop direction depth level p = p := by
  rw [walkLevel_eq_visitAll]
  induction g.links direction level with
  | nil => rfl
  | cons link links ih =>
    rw [visitAll, List.foldl_cons, visit_of_stop hp]
    exact ih

theorem walkFrom_of_stop (hp : stop p) (steps depth : Nat) (level : List Signature) :
    g.walkFrom stop direction steps depth level p = p := by
  induction steps generalizing depth level with
  | zero => rfl
  | succ steps ih =>
    rw [walkFrom, walkLevel_of_stop hp]
    exact ih _ _

/-! The reports of a level are those of its signatures, one after the other. -/

theorem exists_reports_walkLevel (g : CallGraph) (stop : Progress → Bool) (direction : Direction)
    (depth : Nat) (level : List Signature) (p : Progress) :
    ∃ new : List WalkEntry,
      (g.walkLevel stop direction depth level p).entries.toList = p.entries.toList ++ new := by
  rw [walkLevel_eq_visitAll]
  obtain ⟨new, hnew, -⟩ := exists_reports stop depth (g.links direction level) p
  exact ⟨new, hnew⟩

theorem walkLevel_cons (g : CallGraph) (stop : Progress → Bool) (direction : Direction)
    (depth : Nat) (s : Signature) (level : List Signature) (p : Progress) :
    g.walkLevel stop direction depth (s :: level) p =
      g.walkLevel stop direction depth level (g.expand stop direction s depth p) := rfl

theorem since_walkLevel_cons (depth : Nat) (s : Signature) (level : List Signature) :
    p.since (g.walkLevel stop direction depth (s :: level) p) =
      p.since (g.expand stop direction s depth p) ++
        (g.expand stop direction s depth p).since
          (g.walkLevel stop direction depth (s :: level) p) := by
  obtain ⟨new, hnew⟩ := exists_reports_walkLevel g stop direction depth [s] p
  obtain ⟨later, hlater⟩ := exists_reports_walkLevel g stop direction depth level
    (g.expand stop direction s depth p)
  rw [walkLevel_cons] at hnew ⊢
  change (g.expand stop direction s depth p).entries.toList = _ at hnew
  simp only [since, ← Array.length_toList, hlater, hnew, List.append_assoc, List.drop_left,
    List.map_append]
  rw [← List.append_assoc, List.drop_left]

/-- At the limit nothing is visited any more. -/
theorem queueRun_of_limit (queue : List Signature) (p : Progress) :
    g.QueueRun stop direction limit (queue.map (·, limit)) p p := by
  induction queue with
  | nil => exact .empty
  | cons s queue ih =>
    by_cases hp : stop p
    · exact .full hp
    · exact .pass hp le_rfl ih

/-- A queue with the rest of a level and a part of the next one comes to what the walk by levels
comes to, if this is so from the next level on. -/
theorem queueRun_append {steps depth : Nat} (hdepth : depth < limit)
    (hnext : ∀ (next : List Signature) (p : Progress),
      g.QueueRun stop direction limit (next.map (·, depth + 1)) p
        (g.walkFrom stop direction steps (depth + 1) next p))
    (level next : List Signature) (p : Progress) :
    g.QueueRun stop direction limit (level.map (·, depth) ++ next.map (·, depth + 1)) p
      (g.walkFrom stop direction steps (depth + 1)
        (next ++ p.since (g.walkLevel stop direction (depth + 1) level p))
        (g.walkLevel stop direction (depth + 1) level p)) := by
  induction level generalizing next p with
  | nil =>
    have hnone : p.since p = [] := by simp [since, ← Array.length_toList]
    rw [walkLevel, List.foldl_nil, hnone, List.append_nil]
    exact hnext next p
  | cons s level ih =>
    by_cases hp : stop p
    · rw [walkLevel_of_stop hp, walkFrom_of_stop hp]
      exact .full hp
    · -- What is reported for `s` goes behind the part of the next level that is there already.
      have hrun := ih (next ++ p.since (g.expand stop direction s (depth + 1) p))
        (g.expand stop direction s (depth + 1) p)
      rw [List.map_append, ← List.append_assoc, ← walkLevel_cons, List.append_assoc next,
        ← since_walkLevel_cons] at hrun
      exact .visit hp hdepth hrun

theorem queueRun_walkFrom (steps depth : Nat) (level : List Signature) (p : Progress) :
    g.QueueRun stop direction (depth + steps) (level.map (·, depth)) p
      (g.walkFrom stop direction steps depth level p) := by
  induction steps generalizing depth level p with
  | zero => exact queueRun_of_limit level p
  | succ steps ih =>
    have hnext := ih (depth + 1)
    rw [Nat.add_right_comm] at hnext
    have hrun := queueRun_append (by omega) hnext level [] p
    rw [List.map_nil, List.append_nil, List.nil_append] at hrun
    exact hrun

/-- A walk with a queue comes to an end, and its reports are those of the walk by levels. -/
theorem exists_queueRun_walk (g : CallGraph) (start : Signature) (direction : Direction)
    (maxDepth : Nat) :
    ∃ out, (∀ other, g.QueueRun isFull direction (clampDepth maxDepth) [(start, 0)]
        { visited := {start} } other ↔ other = out) ∧
      out.entries.toList = g.walk start direction maxDepth := by
  have hrun : g.QueueRun isFull direction (0 + clampDepth maxDepth) [(start, 0)]
      { visited := {start} } (g.walkFrom isFull direction (clampDepth maxDepth) 0 [start] _) :=
    queueRun_walkFrom (clampDepth maxDepth) 0 [start] { visited := {start} }
  rw [Nat.zero_add] at hrun
  exact ⟨_, fun other => ⟨fun hother => hother.unique hrun, fun heq => heq ▸ hrun⟩, rfl⟩

/-! ### Reachability -/

def meet (state : List Signature × SignatureSet) (callee : Signature) :
    List Signature × SignatureSet :=
  if callee ∈ state.2 then state else (state.1 ++ [callee], state.2.insert callee)

inductive Spread (g : CallGraph) : List Signature → SignatureSet → SignatureSet → Prop
  | empty {seen : SignatureSet} : Spread g [] seen seen
  | take {s : Signature} {queue : List Signature} {seen out : SignatureSet}
    (hrest : Spread g ((g.calleesOf s).toList.foldl meet (queue, seen)).1
      ((g.calleesOf s).toList.foldl meet (queue, seen)).2 out) :
    Spread g (s :: queue) seen out

variable {callees work : List Signature} {seen reached : SignatureSet}

/-- What is met anew is in the set and in the queue. -/
theorem mem_foldl_meet (callees : List Signature) (state : List Signature × SignatureSet)
    (t : Signature) :
    (t ∈ (callees.foldl meet state).2 ↔ t ∈ state.2 ∨ t ∈ callees) ∧
      (t ∈ (callees.foldl meet state).1 ↔ t ∈ state.1 ∨ t ∈ callees ∧ t ∉ state.2) := by
  induction callees generalizing state with
  | nil => simp
  | cons callee callees ih =>
    rw [List.foldl_cons, (ih _).1, (ih _).2, meet]
    split
    · next hseen =>
      simp only [List.mem_cons]
      by_cases ht : t = callee
      · subst ht
        simp [hseen]
      · simp [ht]
    · next hnew =>
      simp only [mem_insert_iff, List.mem_append, List.mem_cons, List.not_mem_nil, or_false]
      by_cases ht : t = callee
      · subst ht
        simp [hnew]
      · simp [ht]

structure Spread.Spec (g : CallGraph) (work : List Signature) (seen reached : SignatureSet) :
    Prop where
  kept : ∀ t ∈ seen, t ∈ reached
  sound : ∀ t ∈ reached, t ∈ seen ∨ ∃ s ∈ work, TransGen g.Calls s t
  closed : ∀ s, s ∈ work ∨ s ∈ reached ∧ s ∉ seen → ∀ t, g.Calls s t → t ∈ reached

theorem Spread.spec (h : g.Spread work seen reached) : Spec g work seen reached := by
  induction h with
  | empty => exact ⟨fun t ht => ht, fun t ht => .inl ht, by simp_all⟩
  | @take s queue seen out _ ih =>
    have hmet {t : Signature} := mem_foldl_meet (g.calleesOf s).toList (queue, seen) t
    simp only [Std.ExtTreeSet.mem_toList, ← calls_iff] at hmet
    refine ⟨fun t ht => ih.kept t (hmet.1.mpr (.inl ht)), fun t ht => ?_, fun r hr t hcalls => ?_⟩
    · rcases ih.sound t ht with ht | ⟨r, hr, hpath⟩
      · rcases hmet.1.mp ht with ht | hcalls
        · exact .inl ht
        · exact .inr ⟨s, List.mem_cons_self, .single hcalls⟩
      · rcases hmet.2.mp hr with hr | ⟨hcalls, -⟩
        · exact .inr ⟨r, List.mem_cons_of_mem s hr, hpath⟩
        · exact .inr ⟨s, List.mem_cons_self, .head hcalls hpath⟩
    · by_cases hrs : r = s
      · subst hrs
        exact ih.kept t (hmet.1.mpr (.inr hcalls))
      · refine ih.closed r ?_ t hcalls
        rcases hr with hr | ⟨hr, hnew⟩
        · exact .inl (hmet.2.mpr (.inl ((List.mem_cons.mp hr).resolve_left hrs)))
        · by_cases hmeets : g.Calls s r
          · exact .inl (hmet.2.mpr (.inr ⟨hmeets, hnew⟩))
          · exact .inr ⟨hr, fun hmem => (hmet.1.mp hmem).elim hnew hmeets⟩

def unmet (g : CallGraph) (seen : SignatureSet) : Nat :=
  (g.nodes.toList.filter fun s => s ∉ seen).length

/-- A signature of the graph is counted once, and no longer when it has been met. -/
theorem unmet_insert {s : Signature} (hs : s ∈ g.nodes) (hnew : s ∉ seen) :
    g.unmet seen = g.unmet (seen.insert s) + 1 := by
  have hlisted : s ∈ g.nodes.toList.filter fun t => t ∉ seen := by
    simp [hs, hnew]
  have hnodup : (g.nodes.toList.filter fun t => t ∉ seen).Nodup :=
    (nodup_toList g.nodes).filter _
  have herase : (g.nodes.toList.filter fun t => t ∉ seen).erase s =
      g.nodes.toList.filter fun t => t ∉ seen.insert s := by
    rw [hnodup.erase_eq_filter, List.filter_filter]
    refine List.filter_congr fun t _ => ?_
    simp [mem_insert_iff, -Std.ExtTreeSet.mem_insert, bne, beq_eq_decide]
  rw [unmet, unmet, ← herase, List.length_erase_of_mem hlisted]
  have hpos := List.length_pos_of_mem hlisted
  omega

theorem length_foldl_meet (hnodes : ∀ t ∈ callees, t ∈ g.nodes)
    (state : List Signature × SignatureSet) :
    (callees.foldl meet state).1.length + g.unmet (callees.foldl meet state).2 =
      state.1.length + g.unmet state.2 := by
  induction callees generalizing state with
  | nil => rfl
  | cons callee callees ih =>
    rw [List.foldl_cons, ih fun t ht => hnodes t (List.mem_cons_of_mem callee ht), meet]
    split
    · rfl
    · next hnew =>
      have hcallee := hnodes callee List.mem_cons_self
      have hsplit := unmet_insert hcallee hnew
      simp only [List.length_append, List.length_singleton]
      omega

theorem exists_spread (hg : g.Inv) (work : List Signature) (seen : SignatureSet) :
    ∃ reached, g.Spread work seen reached := by
  induction hn : work.length + g.unmet seen using Nat.strong_induction_on
    generalizing work seen with
  | _ n ih =>
    cases work with
    | nil => exact ⟨seen, .empty⟩
    | cons s queue =>
      have hnodes : ∀ t ∈ (g.calleesOf s).toList, t ∈ g.nodes := fun t ht =>
        mem_nodes_of_calls hg (calls_iff.mpr (Std.ExtTreeSet.mem_toList.mp ht))
      have hlength := length_foldl_meet hnodes (queue, seen)
      rw [List.length_cons] at hn
      obtain ⟨reached, hreached⟩ := ih _ (by dsimp only at hlength; omega)
        ((g.calleesOf s).toList.foldl meet (queue, seen)).1
        ((g.calleesOf s).toList.foldl meet (queue, seen)).2 rfl
      exact ⟨reached, .take hreached⟩

/-- A search with a queue from the framework root comes to an end with what is reachable. -/
theorem spread_iff (hg : g.Inv) :
    g.Spread [Signature.frameworkRoot] ∅ reached ↔ reached = g.reachable := by
  have heq {reached : SignatureSet} (h : g.Spread [Signature.frameworkRoot] ∅ reached) :
      reached = g.reachable := by
    have hspec := h.spec
    apply Std.ExtTreeSet.ext_mem
    intro t
    rw [mem_reachable hg]
    constructor
    · intro ht
      simpa using hspec.sound t ht
    · intro hpath
      induction hpath with
      | single hcalls => exact hspec.closed _ (.inl (by simp)) _ hcalls
      | tail _ hcalls ih => exact hspec.closed _ (.inr ⟨ih, by simp⟩) _ hcalls
  refine ⟨heq, ?_⟩
  rintro rfl
  obtain ⟨reached, hreached⟩ := exists_spread hg [Signature.frameworkRoot] ∅
  exact heq hreached ▸ hreached

end CallGraph

end JavaCallGraph
