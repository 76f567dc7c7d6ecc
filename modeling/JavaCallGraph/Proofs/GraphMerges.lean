import JavaCallGraph.Proofs.EdgeEnds
import Mathlib.Data.Finset.Card
import Mathlib.Tactic.IntervalCases

/-!
# Graphs that are put together

However a graph is put together out of single edges, lists of edges and other graphs, it lists each
edge from both of its ends and counts it once, and it depends on nothing but the edges that went
into it. So the parts of a graph can be merged in any order and grouping and any number of times,
and the units of a program by any schedule.
-/

namespace JavaCallGraph

/-- A way to put a graph together, starting with the empty graph. The graphs that are merged are
put together in the same way. -/
inductive Construction where
  | empty
  | add (before : Construction) (e : Edge)
  | extend (before : Construction) (es : List Edge)
  | merge (before other : Construction)

namespace Construction

open CallGraph (Inv)

def graph : Construction → CallGraph
  | empty => .empty
  | add before e => before.graph.add e
  | extend before es => before.graph.extend es
  | merge before other => before.graph.merge other.graph

def parts : Construction → List (List Edge)
  | empty => []
  | add before e => [e] :: before.parts
  | extend before es => es :: before.parts
  | merge before other => before.parts ++ other.parts

def edges (c : Construction) : List Edge := c.parts.flatten

def Uses (c : Construction) (family : List (List Edge)) : Prop := ∀ es, es ∈ c.parts ↔ es ∈ family

variable (c d : Construction)

theorem inv_graph : c.graph.Inv := by
  induction c with
  | empty => exact CallGraph.inv_empty
  | add before e ih => exact ih.add e
  | extend before es ih => exact ih.extend es
  | merge before other ih _ => exact ih.extend other.graph.edges

theorem mem_edges_graph (e : Edge) : e ∈ c.graph.edges ↔ e ∈ c.edges := by
  induction c with
  | empty => simp [graph, edges, parts, CallGraph.edges, CallGraph.edgesOf, CallGraph.empty]
  | add before f ih =>
    rw [graph, CallGraph.mem_edges, CallGraph.contains_add, ← CallGraph.mem_edges, ih]
    simp [edges, parts]
  | extend before es ih =>
    rw [graph, CallGraph.mem_edges_extend, ih, or_comm]
    simp [edges, parts]
  | merge before other ih ih' =>
    rw [graph, CallGraph.merge, CallGraph.mem_edges_extend, ih, ih']
    simp [edges, parts]

theorem edgeCount_graph : c.graph.edgeCount = c.edges.toFinset.card := by
  have hset : c.graph.edges.toFinset = c.edges.toFinset := by
    ext e
    rw [List.mem_toFinset, List.mem_toFinset, mem_edges_graph]
  have hnodup : c.graph.edges.Nodup := CallGraph.nodup_edgesOf c.graph.callees
  rw [(inv_graph c).counted, ← hset, List.toFinset_card_of_nodup hnodup]

variable {c d}

theorem graph_eq_iff : c.graph = d.graph ↔ ∀ e, e ∈ c.edges ↔ e ∈ d.edges := by
  simp only [← mem_edges_graph]
  constructor
  · intro heq e
    rw [heq]
  · exact (inv_graph c).eq_of_mem_edges_iff (inv_graph d)

theorem graph_eq_of_uses {family : List (List Edge)} (hc : c.Uses family) (hd : d.Uses family) :
    c.graph = d.graph := by
  refine graph_eq_iff.mpr fun e => ?_
  simp only [edges, List.mem_flatten, hc _, hd _]

/-- The edges of the units of a program, in the order of a schedule. -/
def ofSchedule (p : Program) (schedule : List Nat) : Construction :=
  schedule.foldl (fun c unit => c.extend (p.unitEdges unit)) .empty

theorem graph_ofSchedule (p : Program) (schedule : List Nat) : (ofSchedule p schedule).graph =
    schedule.foldl (fun g unit => g.extend (p.unitEdges unit)) .empty :=
  (List.foldl_hom graph fun _ _ => rfl).symm

theorem mem_edges_ofSchedule {p : Program} {schedule : List Nat} {e : Edge} :
    e ∈ (ofSchedule p schedule).edges ↔ ∃ unit ∈ schedule, e ∈ p.unitEdges unit := by
  induction schedule using List.reverseRecOn with
  | nil => simp [ofSchedule, edges, parts]
  | append_singleton schedule unit ih =>
    have hsnoc : (ofSchedule p (schedule ++ [unit])).edges =
        p.unitEdges unit ++ (ofSchedule p schedule).edges := by
      rw [ofSchedule, List.foldl_append]
      rfl
    rw [hsnoc, List.mem_append, ih]
    simp only [List.mem_append, List.mem_singleton, or_and_right, exists_or, exists_eq_left]
    exact or_comm

theorem graph_ofSchedule_eq_callEdges {p : Program} {schedule : List Nat}
    (hall : ∀ unit < p.units.size, unit ∈ schedule) :
    (ofSchedule p schedule).graph = p.callEdges := by
  rw [Program.callEdges, ← graph_ofSchedule]
  refine graph_eq_iff.mpr fun e => ?_
  rw [mem_edges_ofSchedule, mem_edges_ofSchedule]
  constructor
  · rintro ⟨unit, -, he⟩
    obtain ⟨_, _, hunit, -⟩ := Program.of_mem_unitEdges he
    obtain ⟨hlt, -⟩ := Array.getElem?_eq_some_iff.mp hunit
    exact ⟨unit, List.mem_range.mpr hlt, he⟩
  · rintro ⟨unit, hunit, he⟩
    exact ⟨unit, hall unit (List.mem_range.mp hunit), he⟩

/-- A graph lists what was put into it from both ends and counts it once, however it was put
together. Graphs made of the same lists are equal, and so are those of all schedules of the units
of a program. -/
theorem graph_determined :
    (∀ c : Construction,
      (∀ caller callee, callee ∈ c.graph.calleesOf caller ↔ caller ∈ c.graph.callersOf callee) ∧
      (∀ caller : Signature, c.graph.callees[caller]? ≠ some ∅) ∧
      (∀ callee : Signature, c.graph.callers[callee]? ≠ some ∅) ∧
      (∀ e, c.graph.contains e ↔ e ∈ c.edges) ∧ c.graph.edgeCount = c.edges.toFinset.card) ∧
    (∀ (family : List (List Edge)) (c d : Construction),
      c.Uses family → d.Uses family → c.graph = d.graph) ∧
    (∀ (p : Program) (schedule : List Nat), (∀ unit < p.units.size, unit ∈ schedule) →
      schedule.foldl (fun g unit => g.extend (p.unitEdges unit)) .empty = p.callEdges) := by
  refine ⟨fun c => ⟨?_, ?_, ?_, ?_, edgeCount_graph c⟩, fun _ _ _ => graph_eq_of_uses, ?_⟩
  · intro caller callee
    exact (inv_graph c).mirrored caller callee
  · intro caller hempty
    obtain ⟨callee, hcallee⟩ := (inv_graph c).exists_callee caller ∅ hempty
    simp at hcallee
  · intro callee hempty
    obtain ⟨caller, hcaller⟩ := (inv_graph c).exists_caller callee ∅ hempty
    simp at hcaller
  · intro e
    rw [← mem_edges_graph, CallGraph.mem_edges]
  · intro p schedule hall
    rw [← graph_ofSchedule, graph_ofSchedule_eq_callEdges hall]

section Overlapping

def upper : List Edge := [(.staticInit "A", .staticInit "B"), (.staticInit "A", .staticInit "C")]

def lower : List Edge := [(.staticInit "B", .staticInit "C"), (.staticInit "A", .staticInit "B")]

def callingFrom (caller callee : String) : CompilationUnit :=
  .plain [.plain caller none [.plain "f" [] "void"
    [.expr (.call (.expr (.new (.named callee) [] none 1)) "f" [] 1)]]]

/-- Two lists with a common edge, merged one after the other, and back to front and twice. Two
units, in their order and with the second one first and last. -/
theorem graph_determined_overlapping :
    (let c : Construction := .merge (.extend .empty upper) (.extend .empty lower)
     let d : Construction := .merge (.extend (.extend .empty lower) lower) (.extend .empty upper)
     c.graph = d.graph ∧ c.graph.edgeCount = 3 ∧ c.edges.length = 4) ∧
    ∃ p, Program.build [callingFrom "A" "B", callingFrom "B" "A"] {} .degrade = .ok p ∧
      [1, 0, 1].foldl (fun g unit => g.extend (p.unitEdges unit)) .empty = p.callEdges ∧
      p.callEdges.edgeCount = 4 := by
  obtain ⟨hcount, hequal, hschedule⟩ := graph_determined
  obtain ⟨p, hp, hsize⟩ := exists_ok_of_any
    (Program.build [callingFrom "A" "B", callingFrom "B" "A"] {} .degrade)
    (fun p => decide (p.units.size = 2 ∧ p.callEdges.edgeCount = 4)) (by decide +kernel)
  obtain ⟨hunits, hedges⟩ := of_decide_eq_true hsize
  refine ⟨⟨hequal [upper, lower] _ _ (fun es => ?_) (fun es => ?_), ?_, rfl⟩,
    p, hp, hschedule p _ fun unit hunit => ?_, hedges⟩
  · simp [parts]
  · simp [parts, or_comm]
  · exact (hcount _).2.2.2.2.trans (by decide)
  · rw [hunits] at hunit
    interval_cases unit
    · simp
    · simp

end Overlapping

end Construction

end JavaCallGraph
