import JavaCallGraph.Proofs.GraphMerges
import JavaCallGraph.Proofs.ReadableGraph

/-!
# Graphs that survive on disk

The document of a graph holds the texts of its signatures. A signature that is not well formed is
written as a text that is refused or read as another signature, and then the graph that is read is
another one. So a graph is read back exactly if all its signatures are well formed, from the text of
its document and from the artifact that it is kept in.
-/

namespace JavaCallGraph

namespace Construction

/-- A graph is read back from its document, with both indices and the number of its edges, exactly
if its signatures are well formed. The same holds of any artifact that the document is kept in. -/
theorem persists_iff_wellFormed (c : Construction) (sourceRoot : String) {stats : Stats}
    (hstats : stats.Fits) {generatedAt : Nat} (htime : generatedAt < UInt64.size) :
    let document := GraphDocument.ofGraph c.graph sourceRoot stats generatedAt
    ((∃ d, GraphDocument.read document.write = .ok d ∧ d.toGraph = c.graph) ↔
      ∀ s ∈ c.graph.nodes, s.WellFormed) ∧
    ∀ (files after : FileTree) (dir path : String),
      Artifact.write files dir document = (after, .ok path) →
      ((∃ d, Artifact.read after path = .ok d ∧ d.toGraph = c.graph) ↔
        ∀ s ∈ c.graph.nodes, s.WellFormed) := by
  intro document
  have hinv := inv_graph c
  have hnodes : (∀ e ∈ c.graph.edges, e.1.WellFormed ∧ e.2.WellFormed) ↔
      ∀ s ∈ c.graph.nodes, s.WellFormed := by
    constructor
    · intro h s hs
      obtain ⟨e, he, rfl | rfl⟩ := (CallGraph.mem_nodes hinv).mp hs
      · exact (h e he).1
      · exact (h e he).2
    · intro h e he
      exact ⟨h _ ((CallGraph.mem_nodes hinv).mpr ⟨e, he, .inl rfl⟩),
        h _ ((CallGraph.mem_nodes hinv).mpr ⟨e, he, .inr rfl⟩)⟩
  have htext := (GraphDocument.reads_back_iff hinv sourceRoot hstats htime).trans hnodes
  refine ⟨htext, fun files after dir path hwrite => ?_⟩
  simp only [Artifact.read_of_write hwrite]
  exact htext

section Colons

def calling (s : Signature) : Construction := .extend .empty [(.frameworkRoot, s)]

theorem mem_nodes_calling {s t : Signature} :
    t ∈ (calling s).graph.nodes ↔ t = .frameworkRoot ∨ t = s := by
  rw [CallGraph.mem_nodes (inv_graph _)]
  simp [mem_edges_graph, calling, edges, parts]

/-- The written form of this signature is that of the method `f:g` of `A`, which is read instead. -/
def colons : Signature := ⟨"A:f", "g", [], .void⟩

/-- Delimiters of other parts of a signature do no harm, but a colon in the declaring type does, in
the artifact too. -/
theorem persists_iff_wellFormed_colons :
    (∃ d, GraphDocument.read
      (GraphDocument.ofGraph (calling .crowded).graph "src" {} 42).write = .ok d ∧
        d.toGraph = (calling .crowded).graph) ∧
    ∃ after, Artifact.write {} "out" (GraphDocument.ofGraph (calling colons).graph "src" {} 42) =
        (after, .ok "out/callgraph-42.json") ∧
      ¬ ∃ d, Artifact.read after "out/callgraph-42.json" = .ok d ∧
        d.toGraph = (calling colons).graph := by
  have hstats : Stats.Fits {} := by decide
  have htime : 42 < UInt64.size := by decide
  constructor
  · apply (persists_iff_wellFormed (calling .crowded) "src" hstats htime).1.mpr
    intro s hs
    rcases mem_nodes_calling.mp hs with rfl | rfl
    · decide
    · decide +kernel
  · have hjoin : FileTree.join "out" "callgraph-42.json" = "out/callgraph-42.json" := by
      decide +kernel
    have hpath : FileTree.isPath (FileTree.join "out" "callgraph-42.json") := by
      rw [hjoin, FileTree.isPath_iff]
      decide +kernel
    have hfree : Artifact.freeName? (FileTree.put {} ["out"] .dir) ["out"] 42 =
        some "callgraph-42.json" := by decide +kernel
    obtain ⟨after, hwrite⟩ : ∃ after, Artifact.write {} "out"
        (GraphDocument.ofGraph (calling colons).graph "src" {} 42) =
          (after, .ok "out/callgraph-42.json") :=
      ⟨_, Artifact.write_eq_ok_iff.mpr
        ⟨_, _, _, Analysis.createDirAll_out, hfree, hpath, hjoin.symm, rfl⟩⟩
    refine ⟨after, hwrite, fun hread => ?_⟩
    have hall := (persists_iff_wellFormed (calling colons) "src" hstats htime).2 _ _ _ _ hwrite
    have hcolons : colons.WellFormed := hall.mp hread colons (mem_nodes_calling.mpr (.inr rfl))
    revert hcolons
    decide

end Colons

end Construction

end JavaCallGraph
