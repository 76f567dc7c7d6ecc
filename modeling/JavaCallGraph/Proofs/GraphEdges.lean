import JavaCallGraph.Graph
import JavaCallGraph.Proofs.NameSets
import Mathlib.Data.List.Nodup

/-!
# The edges of a call graph

A graph that is made by adding edges lists each edge under its caller and under its callee, and
counts it once. So it is determined by its edges, in whatever order they were added.
-/

namespace JavaCallGraph

namespace CallGraph

variable {g h : CallGraph} {e f : Edge} {s t : Signature}

theorem mem_link {m : SignatureMap SignatureSet} {a b : Signature} :
    t ∈ (link m a b)[s]?.getD ∅ ↔ (s = a ∧ t = b) ∨ t ∈ m[s]?.getD ∅ := by
  by_cases hs : a = s
  · subst hs
    simp [link, eq_comm (a := b)]
  · simp [link, Std.ExtTreeMap.getElem?_alter, hs, Ne.symm hs]

theorem exists_mem_link {m : SignatureMap SignatureSet} {a b : Signature}
    (hm : ∀ (s : Signature) (set : SignatureSet), m[s]? = some set → ∃ t, t ∈ set) :
    ∀ (s : Signature) (set : SignatureSet), (link m a b)[s]? = some set → ∃ t, t ∈ set := by
  intro s set hs
  rw [link, Std.ExtTreeMap.getElem?_alter] at hs
  split at hs
  · exact ⟨b, Option.some.inj hs ▸ Std.ExtTreeSet.mem_insert_self⟩
  · exact hm s set hs

theorem contains_iff : g.contains e ↔ e.2 ∈ g.calleesOf e.1 := Std.ExtTreeSet.contains_iff_mem

theorem mem_edges : e ∈ g.edges ↔ g.contains e := by
  obtain ⟨s, t⟩ := e
  simp only [edges, edgesOf, contains_iff, calleesOf, List.mem_flatMap, List.mem_map,
    Prod.mk.injEq, Prod.exists, Std.ExtTreeMap.mem_toList_iff_getElem?_eq_some]
  cases hs : g.callees[s]? with
  | none => simp [hs]
  | some set => simp [hs]

theorem nodup_edgesOf (adjacency : SignatureMap SignatureSet) : (edgesOf adjacency).Nodup := by
  rw [edgesOf, List.nodup_flatMap]
  constructor
  · intro p _
    exact (nodup_toList p.2).map fun _ _ heq => (Prod.mk.inj heq).2
  · refine Std.ExtTreeMap.distinct_keys_toList.imp ?_
    intro p q hne
    refine List.disjoint_left.mpr fun e hp hq => ?_
    obtain ⟨_, -, rfl⟩ := List.mem_map.mp hp
    obtain ⟨_, -, heq⟩ := List.mem_map.mp hq
    rw [(Prod.mk.inj heq).1] at hne
    exact hne Std.ReflCmp.compare_self

theorem contains_add : (g.add e).contains f ↔ f = e ∨ g.contains f := by
  unfold add
  split
  · next hmem =>
    constructor
    · exact Or.inr
    · rintro (rfl | hf)
      · exact hmem
      · exact hf
  · obtain ⟨a, b⟩ := e
    obtain ⟨c, d⟩ := f
    rw [contains_iff, contains_iff, calleesOf, calleesOf, mem_link, Prod.mk.injEq]

theorem contains_extend {es : List Edge} :
    (g.extend es).contains f ↔ g.contains f ∨ f ∈ es := by
  induction es generalizing g with
  | nil => simp [extend]
  | cons e es ih =>
    change ((g.add e).extend es).contains f ↔ _
    rw [ih, contains_add, List.mem_cons]
    tauto

theorem mem_edges_extend {es : List Edge} : f ∈ (g.extend es).edges ↔ f ∈ g.edges ∨ f ∈ es := by
  rw [mem_edges, mem_edges, contains_extend]

/-! ### What adding an edge keeps -/

structure Inv (g : CallGraph) : Prop where
  exists_callee : ∀ (s : Signature) (set : SignatureSet), g.callees[s]? = some set → ∃ t, t ∈ set
  exists_caller : ∀ (t : Signature) (set : SignatureSet), g.callers[t]? = some set → ∃ s, s ∈ set
  mirrored : ∀ s t, t ∈ g.calleesOf s ↔ s ∈ g.callersOf t
  counted : g.edgeCount = g.edges.length

theorem inv_empty : Inv empty where
  exists_callee := by simp [empty]
  exists_caller := by simp [empty]
  mirrored := by simp [empty, calleesOf, callersOf]
  counted := rfl

theorem length_edges_add (hnew : ¬ g.contains e) :
    (g.add e).edges.length = g.edges.length + 1 := by
  have hperm : (g.add e).edges.Perm (e :: g.edges) := by
    have hnodup : (e :: g.edges).Nodup :=
      List.nodup_cons.mpr ⟨fun hmem => hnew (mem_edges.mp hmem), nodup_edgesOf _⟩
    refine (List.perm_ext_iff_of_nodup (nodup_edgesOf (g.add e).callees) hnodup).mpr fun f => ?_
    change f ∈ (g.add e).edges ↔ _
    rw [mem_edges, contains_add, List.mem_cons, mem_edges]
  simpa using hperm.length_eq

theorem Inv.add (hg : Inv g) (e : Edge) : Inv (g.add e) := by
  by_cases hold : g.contains e
  · rw [CallGraph.add, if_pos hold]
    exact hg
  · have hlength := length_edges_add hold
    have hadd : g.add e = ⟨link g.callees e.1 e.2, link g.callers e.2 e.1, g.edgeCount + 1⟩ :=
      if_neg hold
    constructor
    · rw [hadd]
      exact exists_mem_link hg.exists_callee
    · rw [hadd]
      exact exists_mem_link hg.exists_caller
    · intro s t
      have hmirrored : t ∈ g.callees[s]?.getD ∅ ↔ s ∈ g.callers[t]?.getD ∅ := hg.mirrored s t
      rw [hadd, calleesOf, callersOf, mem_link, mem_link, hmirrored, and_comm]
    · rw [hlength, ← hg.counted, hadd]

theorem Inv.extend (hg : Inv g) (es : List Edge) : Inv (g.extend es) := by
  induction es generalizing g with
  | nil => exact hg
  | cons e es ih => exact ih (hg.add e)

theorem Inv.eq_of_mem_edges_iff (hg : Inv g) (hh : Inv h)
    (hedges : ∀ e, e ∈ g.edges ↔ e ∈ h.edges) : g = h := by
  have hcallees (s t : Signature) : t ∈ g.calleesOf s ↔ t ∈ h.calleesOf s := by
    simpa only [mem_edges, contains_iff] using hedges (s, t)
  have hfrom : g.callees = h.callees :=
    eq_of_mem_getD_iff hg.exists_callee hh.exists_callee hcallees
  have hto : g.callers = h.callers := by
    refine eq_of_mem_getD_iff hg.exists_caller hh.exists_caller fun t s => ?_
    exact (hg.mirrored s t).symm.trans ((hcallees s t).trans (hh.mirrored s t))
  have hcount : g.edgeCount = h.edgeCount := by
    rw [hg.counted, hh.counted, edges, edges, hfrom]
  cases g
  cases h
  simp_all

/-! ### Nodes -/

theorem mem_of_mem_getD {m : SignatureMap SignatureSet} (h : t ∈ m[s]?.getD ∅) : s ∈ m := by
  by_contra hnone
  simp [Std.ExtTreeMap.getElem?_eq_none hnone] at h

theorem mem_nodes (hg : Inv g) : s ∈ g.nodes ↔ ∃ e ∈ g.edges, s = e.1 ∨ s = e.2 := by
  have hkeys : s ∈ g.nodes ↔ s ∈ g.callees ∨ s ∈ g.callers := by simp [nodes]
  rw [hkeys]
  constructor
  · rintro (hs | hs)
    · obtain ⟨t, ht⟩ := hg.exists_callee s _ (Std.ExtTreeMap.getElem?_eq_some_getElem hs)
      refine ⟨(s, t), mem_edges.mpr (contains_iff.mpr ?_), .inl rfl⟩
      simpa [calleesOf, hs] using ht
    · obtain ⟨r, hr⟩ := hg.exists_caller s _ (Std.ExtTreeMap.getElem?_eq_some_getElem hs)
      refine ⟨(r, s), mem_edges.mpr (contains_iff.mpr ((hg.mirrored r s).mpr ?_)), .inr rfl⟩
      simpa [callersOf, hs] using hr
  · rintro ⟨e, he, hend⟩
    have hcallee : e.2 ∈ g.calleesOf e.1 := contains_iff.mp (mem_edges.mp he)
    rcases hend with rfl | rfl
    · exact .inl (mem_of_mem_getD hcallee)
    · exact .inr (mem_of_mem_getD ((hg.mirrored e.1 e.2).mp hcallee))

end CallGraph

end JavaCallGraph
