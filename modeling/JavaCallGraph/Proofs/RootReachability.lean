import JavaCallGraph.Graph.Walk
import JavaCallGraph.Proofs.GraphMerges
import Mathlib.Logic.Relation

/-!
# What the framework root reaches

The search keeps a work list, and it ends because each step takes a signature out of the unseen ones
or shortens the list. What it has seen is closed under calls, up to what is still on the list, and
whatever is called has been seen or is still unseen. So at the end it has seen what it started with
and all that this leads to, and the methods that are reported as unreachable are those to which no
path leads.
-/

namespace JavaCallGraph

theorem Signature.pairwise_sortUnique (signatures : List Signature) :
    (sortUnique signatures).Pairwise (compare · · = .lt) := by
  unfold sortUnique
  exact Std.ExtTreeSet.ordered_toList

namespace CallGraph

open Relation (ReflTransGen TransGen)

variable {g : CallGraph} {unseen seen : SignatureSet} {work : List Signature} {s t : Signature}

def Calls (g : CallGraph) (s t : Signature) : Prop := (s, t) ∈ g.edges

instance : Decidable (g.Calls s t) := inferInstanceAs (Decidable ((s, t) ∈ g.edges))

theorem calls_iff : g.Calls s t ↔ t ∈ g.calleesOf s := mem_edges.trans contains_iff

/-! ### The work list -/

structure Searched (g : CallGraph) (unseen : SignatureSet) (work : List Signature)
    (seen : SignatureSet) : Prop where
  /-- What is called has been seen or can still be seen. -/
  callee : ∀ s t, g.Calls s t → t ∈ unseen ∨ t ∈ seen
  /-- The same of what the list holds. -/
  pending : ∀ s ∈ work, s ∈ unseen ∨ s ∈ seen
  /-- What has been seen calls nothing that has been neither seen nor listed. -/
  closed : ∀ s ∈ seen, ∀ t, g.Calls s t → t ∈ seen ∨ t ∈ work

theorem Searched.take (h : g.Searched unseen (s :: work) seen) :
    g.Searched (unseen.erase s) ((g.calleesOf s).toList ++ work) (seen.insert s) := by
  have hmoved {t : Signature} (ht : t ∈ unseen ∨ t ∈ seen) :
      t ∈ unseen.erase s ∨ t ∈ seen.insert s := by
    by_cases hst : s = t
    · exact .inr (mem_insert_iff.mpr (.inl hst.symm))
    · rcases ht with ht | ht
      · exact .inl (by simp [hst, ht])
      · exact .inr (mem_insert_iff.mpr (.inr ht))
  constructor
  · intro r t hcalls
    exact hmoved (h.callee r t hcalls)
  · intro t ht
    rcases List.mem_append.mp ht with ht | ht
    · exact hmoved (h.callee s t (calls_iff.mpr (Std.ExtTreeSet.mem_toList.mp ht)))
    · exact hmoved (h.pending t (List.mem_cons_of_mem s ht))
  · intro r hr t hcalls
    rcases mem_insert_iff.mp hr with rfl | hr
    · exact .inr (List.mem_append_left work (Std.ExtTreeSet.mem_toList.mpr (calls_iff.mp hcalls)))
    · rcases h.closed r hr t hcalls with ht | ht
      · exact .inl (mem_insert_iff.mpr (.inr ht))
      · rcases List.mem_cons.mp ht with rfl | ht
        · exact .inl (mem_insert_iff.mpr (.inl rfl))
        · exact .inr (List.mem_append_right _ ht)

theorem Searched.skip (h : g.Searched unseen (s :: work) seen) (hs : s ∉ unseen) :
    s ∈ seen ∧ g.Searched unseen work seen := by
  have hseen : s ∈ seen := (h.pending s List.mem_cons_self).resolve_left hs
  refine ⟨hseen, h.callee, fun t ht => h.pending t (List.mem_cons_of_mem s ht), ?_⟩
  intro r hr t hcalls
  rcases h.closed r hr t hcalls with ht | ht
  · exact .inl ht
  · rcases List.mem_cons.mp ht with rfl | ht
    · exact .inl hseen
    · exact .inr ht

/-- A path that starts with something seen stays there or goes on from the list. -/
theorem Searched.of_path (h : g.Searched unseen work seen) (hs : s ∈ seen)
    (hpath : ReflTransGen g.Calls s t) : t ∈ seen ∨ ∃ r ∈ work, ReflTransGen g.Calls r t := by
  induction hpath using ReflTransGen.head_induction_on with
  | refl => exact .inl hs
  | @head s r hcalls hrest ih =>
    rcases h.closed s hs r hcalls with hr | hr
    · exact ih hr
    · exact .inr ⟨r, hr, hrest⟩

theorem mem_reach (h : g.Searched unseen work seen) : t ∈ g.reach unseen work seen ↔
    t ∈ seen ∨ ∃ s ∈ work, ReflTransGen g.Calls s t := by
  fun_induction reach g unseen work seen with
  | case1 => simp
  | case2 unseen seen s work hs ih =>
    rw [ih h.take, mem_insert_iff]
    have hhead : ReflTransGen g.Calls s t ↔
        t = s ∨ ∃ r ∈ (g.calleesOf s).toList, ReflTransGen g.Calls r t := by
      simp only [ReflTransGen.cases_head_iff (a := s), Std.ExtTreeSet.mem_toList,
        calls_iff, eq_comm (a := s)]
    simp only [List.mem_append, List.mem_cons, or_and_right, exists_or, exists_eq_left, hhead]
    rw [or_comm (a := t = s), or_assoc, or_assoc]
  | case3 unseen seen s work hs ih =>
    obtain ⟨hseen, hrest⟩ := h.skip hs
    rw [ih hrest]
    simp only [List.mem_cons, or_and_right, exists_or, exists_eq_left]
    constructor
    · rintro (ht | ht)
      · exact .inl ht
      · exact .inr (.inr ht)
    · rintro (ht | hpath | ht)
      · exact .inl ht
      · exact hrest.of_path hseen hpath
      · exact .inr ht

/-! ### From the root -/

theorem mem_nodes_of_calls (hg : g.Inv) (hcalls : g.Calls s t) : t ∈ g.nodes :=
  (mem_nodes hg).mpr ⟨(s, t), hcalls, .inr rfl⟩

theorem mem_reachable (hg : g.Inv) :
    t ∈ g.reachable ↔ TransGen g.Calls Signature.frameworkRoot t := by
  have hstart : g.Searched g.nodes (g.calleesOf Signature.frameworkRoot).toList ∅ := by
    refine ⟨fun s t hcalls => .inl (mem_nodes_of_calls hg hcalls), fun s hs => ?_, by simp⟩
    exact .inl (mem_nodes_of_calls hg (calls_iff.mpr (Std.ExtTreeSet.mem_toList.mp hs)))
  rw [reachable, mem_reach hstart, TransGen.head'_iff]
  simp [calls_iff]

theorem mem_unreachable (hg : g.Inv) {candidates : List Signature} :
    s ∈ g.unreachable candidates ↔ s ∈ candidates ∧ s.declaring ≠ Signature.frameworkName ∧
      ¬ TransGen g.Calls Signature.frameworkRoot s := by
  have hmissed : g.reachable.contains s = false ↔
      ¬ TransGen g.Calls Signature.frameworkRoot s := by
    rw [← mem_reachable hg, ← Std.ExtTreeSet.contains_iff_mem, Bool.not_eq_true]
  simp [unreachable, Signature.sortUnique, Signature.isFrameworkRoot, hmissed]

end CallGraph

/-- Exactly what a path of calls leads to from the framework root is reachable in a graph. Of any
candidates, those outside the framework to which no such path leads are reported, in order and each
once. -/
theorem Construction.reachability_exact (c : Construction) :
    (∀ s, s ∈ c.graph.reachable ↔ Relation.TransGen c.graph.Calls Signature.frameworkRoot s) ∧
      ∀ candidates : List Signature,
        (c.graph.unreachable candidates).Pairwise (compare · · = .lt) ∧
        ∀ s, s ∈ c.graph.unreachable candidates ↔
          s ∈ candidates ∧ s.declaring ≠ Signature.frameworkName ∧
            ¬ Relation.TransGen c.graph.Calls Signature.frameworkRoot s := by
  have hinv := inv_graph c
  refine ⟨fun s => CallGraph.mem_reachable hinv, fun candidates => ⟨?_, fun s => ?_⟩⟩
  · exact Signature.pairwise_sortUnique _
  · exact CallGraph.mem_unreachable hinv

section Entered

def procedureOf (type : String) : Signature := ⟨type, "run", [], .void⟩

def entered : Construction :=
  .extend .empty [(Signature.frameworkRoot, procedureOf "A"), (procedureOf "A", procedureOf "B"),
    (procedureOf "C", procedureOf "B")]

example : procedureOf "B" ∈ entered.graph.reachable ∧
    procedureOf "C" ∈ entered.graph.unreachable [procedureOf "B", procedureOf "C"] := by
  have hinv := Construction.inv_graph entered
  have hA : entered.graph.Calls Signature.frameworkRoot (procedureOf "A") := by decide +kernel
  have hB : entered.graph.Calls (procedureOf "A") (procedureOf "B") := by decide +kernel
  refine ⟨(CallGraph.mem_reachable hinv).mpr (.head hA (.single hB)),
    (CallGraph.mem_unreachable hinv).mpr ⟨by simp, by decide, fun hpath => ?_⟩⟩
  obtain ⟨s, -, hs⟩ := Relation.TransGen.tail'_iff.mp hpath
  have hnobody : ∀ e ∈ entered.graph.edges, e.2 ≠ procedureOf "C" := by decide +kernel
  exact hnobody _ hs rfl

end Entered

end JavaCallGraph
