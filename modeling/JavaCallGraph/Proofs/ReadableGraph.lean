import JavaCallGraph.Proofs.ArtifactFiles
import JavaCallGraph.Proofs.DeclaredMethods
import JavaCallGraph.Proofs.DocumentRoundTrip
import JavaCallGraph.Proofs.EdgeEnds
import JavaCallGraph.Proofs.LibraryNames
import JavaCallGraph.Proofs.LoweredNames
import JavaCallGraph.Proofs.ScopeNames

/-!
# Graphs that are read back

If the names in the sources and in the library are readable, every node of the hierarchy has
well-formed methods, and so are both ends of every edge. Then the call graph is read back from the
artifact that is written for it. A type whose simple name is empty shows that names matter: its
constructor is written in a way that cannot be read.
-/

namespace JavaCallGraph

/-! ### Methods of source types -/

theorem TypeDecl.Readable.wellFormed_method {d : TypeDecl} (hd : d.Readable) {m : MethodDecl}
    (hm : m ∈ d.methods) {bind : List String → TypeRef → StaticType}
    (hbind : ∀ vars t, EndsBefore ';' t.name → (bind vars t).desc.WellFormed)
    (vars : List String) : (d.method bind vars m).signature.WellFormed := by
  have hmethod := hd.methods m hm
  have hparams : ∀ desc ∈ (m.params.map fun p => bind (vars ++ m.typeParams.map (·.name))
      p.type).map StaticType.desc, desc.WellFormed := by
    intro desc hdesc
    rw [List.map_map] at hdesc
    obtain ⟨p, hp, rfl⟩ := List.mem_map.mp hdesc
    exact hbind _ _ (hmethod.params p hp)
  unfold TypeDecl.method
  dsimp only
  split
  · exact ⟨hd.name.endsBefore_colon, hd.name.simple, hparams, trivial⟩
  · next hkind =>
    refine ⟨hd.name.endsBefore_colon, hmethod.name hkind, hparams, ?_⟩
    cases hret : m.ret with
    | none => trivial
    | some t => exact hbind _ _ (hmethod.ret t hret)

theorem Method.wellFormed_of_mem_ofEnum {type : String} (htype : NamesType type) {m : Method}
    (hm : m ∈ ofEnum type) : m.signature.WellFormed := by
  simp only [ofEnum, List.mem_cons, List.not_mem_nil, or_false] at hm
  rcases hm with rfl | rfl
  · have hname : EndsBefore '(' "values" := by decide
    exact ⟨htype.endsBefore_colon, hname, by simp [implicit], htype.endsBefore_semicolon⟩
  · have hname : EndsBefore '(' "valueOf" := by decide
    refine ⟨htype.endsBefore_colon, hname, ?_, htype.endsBefore_semicolon⟩
    intro d hd
    rw [List.mem_singleton.mp hd]
    decide

structure TypeNode.Readable (n : TypeNode) : Prop where
  methods : ∀ m ∈ n.methods, m.signature.WellFormed
  name : n.origin = .source → NamesType n.name

namespace SourceType

variable {source : SourceType}

theorem readable_node (hdecl : source.decl.Readable) (himports : source.scope.ImportsReadable)
    {names : TypeNames} (hnames : names.All (EndsBefore ';')) (decls : Declarations)
    (isInterface : String → Bool) : (source.node decls names isInterface).Readable := by
  refine ⟨fun m hm => ?_, fun _ => ?_⟩
  · rcases List.mem_append.mp hm with hm | hm
    · obtain ⟨n, hn, rfl⟩ := List.mem_map.mp hm
      refine hdecl.wellFormed_method hn (fun vars t ht => ?_) _
      refine UnitScope.wellFormed_desc_bind hnames himports ?_ vars ht
      rintro _ ⟨⟩
      exact hdecl.name.undelimited.2
    · split at hm
      · exact Method.wellFormed_of_mem_ofEnum hdecl.name hm
      · cases hm
  · rw [name_node]
    exact hdecl.name

end SourceType

/-! ### Programs -/

namespace Program

variable {units : List CompilationUnit} {library : Library} {policy : CyclePolicy} {p : Program}

structure ReadableInputs (units : List CompilationUnit) (library : Library) : Prop where
  units : ∀ u ∈ units, u.Readable
  library : library.NamesReadable

theorem ReadableInputs.source {name : String} {source : SourceType}
    (h : ReadableInputs units library)
    (hsource : (Declarations.ofUnits units)[name]? = some source) :
    source.decl.Readable ∧ source.scope.ImportsReadable := by
  obtain ⟨u, hu, hdecl, hscope⟩ :=
    Declarations.mem_listed.mp (Declarations.of_getElem?_ofUnits hsource).1
  have hreadable := h.units u (List.mem_of_getElem? hu)
  rw [hscope]
  exact ⟨hreadable.types _ (List.mem_of_getElem? hdecl),
    UnitScope.importsReadable_ofUnit hreadable.imports⟩

theorem ReadableInputs.names (h : ReadableInputs units library) {nodes : List TypeNode}
    (hnodes : library.nodes = .ok nodes) :
    TypeNames.All (EndsBefore ';') (typeNames nodes units) := by
  refine TypeNames.all_empty.foldl_insert fun name hname => ?_
  rcases List.mem_append.mp hname with hname | hname
  · obtain ⟨node, hnode, rfl⟩ := List.mem_map.mp hname
    exact (h.library.of_nodes hnodes node hnode).1
  · obtain ⟨source, hsource, rfl⟩ := List.mem_map.mp hname
    obtain ⟨u, hu, hdecl, -⟩ := Declarations.mem_listed.mp hsource
    have hreadable := (h.units u (List.mem_of_getElem? hu)).types _ (List.mem_of_getElem? hdecl)
    exact hreadable.name.endsBefore_semicolon

theorem ReadableInputs.readable_of_mem_typeNodes (h : ReadableInputs units library)
    {nodes : List TypeNode}
    (hnodes : library.nodes = .ok nodes) {names : TypeNames} (hnames : names.All (EndsBefore ';')) :
    ∀ node ∈ typeNodes nodes (Declarations.ofUnits units) names, node.Readable := by
  intro node hnode
  rcases List.mem_append.mp hnode with hnode | hnode
  · obtain ⟨-, horigin, hmethods⟩ := h.library.of_nodes hnodes node hnode
    refine ⟨hmethods, fun hsource => ?_⟩
    rw [horigin] at hsource
    cases hsource
  · rw [values_eq_map_toList, List.map_map] at hnode
    obtain ⟨⟨name, source⟩, hmem, rfl⟩ := List.mem_map.mp hnode
    obtain ⟨hdecl, himports⟩ :=
      h.source (Std.ExtTreeMap.mem_toList_iff_getElem?_eq_some.mp hmem)
    exact SourceType.readable_node hdecl himports hnames _ _

theorem ReadableInputs.readable_of_get? (h : ReadableInputs units library)
    (hp : build units library policy = .ok p) {name : String} {node : TypeNode}
    (hnode : p.hierarchy.get? name = some node) : node.Readable := by
  obtain ⟨nodes, hnodes, index, hindex, rfl⟩ := build_eq_ok_iff.mp hp
  have hgiven := h.readable_of_mem_typeNodes hnodes (h.names hnodes)
  unfold TypeIndex.build at hindex
  split at hindex
  · next hierarchy hbuild =>
    cases hindex
    rcases Hierarchy.of_get?_build hbuild hnode with
      ⟨horigin, hmethods⟩ | ⟨given, hmem, hname, horigin, hmethods, -⟩
    · refine ⟨by simp [hmethods], fun hsource => ?_⟩
      rw [horigin] at hsource
      cases hsource
    · have hreadable := hgiven given hmem
      refine ⟨hmethods ▸ hreadable.methods, fun hsource => ?_⟩
      rw [hname]
      exact hreadable.name (horigin ▸ hsource)
  · cases hindex

theorem ReadableInputs.wellFormed_of_knows (h : ReadableInputs units library)
    (hp : build units library policy = .ok p) {s : Signature} (hs : p.index.Knows s) :
    s.WellFormed := by
  obtain ⟨m, hm, rfl⟩ := hs
  change p.catalog.Lists m at hm
  rw [catalog_of_build hp] at hm
  obtain ⟨name, node, hnode, hm | ⟨horigin, rfl⟩⟩ := Catalog.provides_of_lists hm
  · exact (h.readable_of_get? hp hnode).methods m hm
  · have hname := (h.readable_of_get? hp hnode).name horigin
    exact ⟨hname.endsBefore_colon, hname.simple, by simp [Method.defaultConstructor,
      Signature.constructor], trivial⟩

theorem ReadableInputs.wellFormed_of_body? (h : ReadableInputs units library)
    (hp : build units library policy = .ok p) {s : Signature} {body : Body}
    (hbody : p.body? s = some body) : s.WellFormed := by
  obtain ⟨hsource, himplements⟩ := body?_of_build hp hbody
  cases himplements with
  | method hnode hm => exact (h.readable_of_get? hp hnode).methods _ hm
  | defaultConstructor hm => exact h.wellFormed_of_knows hp ⟨_, ⟨_, .inl hm⟩, rfl⟩
  | staticInit =>
    have hname := (h.source hsource).1.name
    have hinit : EndsBefore '(' "<clinit>" := by decide
    exact ⟨hname.endsBefore_colon, hinit, by simp [Signature.staticInit], trivial⟩

end Program

namespace Analysis

variable {filesSeen : Nat} {units : List CompilationUnit} {library : Library}
  {options : AnalysisOptions} {outcome : Outcome}

theorem inv_of_ofUnits (h : ofUnits filesSeen units library options = .ok outcome) :
    outcome.graph.Inv := by
  obtain ⟨p, -, rfl⟩ := ofUnits_eq_ok_iff.mp h
  exact p.inv_callEdges.extend _

theorem wellFormed_of_mem_edges (hinputs : Program.ReadableInputs units library)
    (h : ofUnits filesSeen units library options = .ok outcome) :
    ∀ e ∈ outcome.graph.edges, e.1.WellFormed ∧ e.2.WellFormed := by
  obtain ⟨p, hp, rfl⟩ := ofUnits_eq_ok_iff.mp h
  intro e he
  rcases CallGraph.mem_edges_extend.mp he with hcall | hroot
  · obtain ⟨unit, hunit⟩ := Program.mem_edges_callEdges.mp hcall
    obtain ⟨u, body, -, -, hbody, -, hknown⟩ := Program.of_mem_unitEdges hunit
    exact ⟨hinputs.wellFormed_of_body? hp hbody, hinputs.wellFormed_of_knows hp hknown⟩
  · obtain ⟨s, hs, rfl⟩ := List.mem_map.mp hroot
    obtain ⟨body, hbody⟩ := Option.isSome_iff_exists.mp
      (Program.isSome_body?_of_mem_roots (Std.ExtTreeSet.mem_toList.mp hs))
    have hroot : Signature.frameworkRoot.WellFormed := by decide
    exact ⟨hroot, hinputs.wellFormed_of_body? hp hbody⟩

/-- Every source is read from a tree in which the names are readable everywhere. -/
def ReadableTrees (sources : SourceSet) (read : UnitReader) : Prop :=
  ∀ f ∈ sources.files, ∃ hasErrors tree,
    read f.path f.content = .ofTree f.path hasErrors tree ∧ tree.Everywhere Tree.NamesReadable

/-- A call graph that is written is read back exactly if its signatures are well formed, and they
are if the names of the sources and of the library are readable. -/
theorem graph_reads_back {sources : SourceSet} {read : UnitReader}
    (h : ofSources sources read library options = .ok outcome) (sourceRoot : String)
    {stats : Stats} (hstats : stats.Fits) {generatedAt : Nat} (htime : generatedAt < UInt64.size) :
    let document := GraphDocument.ofGraph outcome.graph sourceRoot stats generatedAt
    ((∃ d, GraphDocument.read document.write = .ok d ∧ d.toGraph = outcome.graph) ↔
      ∀ e ∈ outcome.graph.edges, e.1.WellFormed ∧ e.2.WellFormed) ∧
    (ReadableTrees sources read → library.NamesReadable →
      GraphDocument.read document.write = .ok document ∧ document.toGraph = outcome.graph ∧
      ∀ (files made : FileTree) (dir n : String) (place : Place),
        files.createDirAll dir = (made, .ok place) →
        Artifact.freeName? made place generatedAt = some n →
        FileTree.isPath (FileTree.join dir n) →
        ∃ after, Artifact.write files dir document = (after, .ok (FileTree.join dir n)) ∧
          Artifact.read after (FileTree.join dir n) = .ok document) := by
  have hinv := inv_of_ofUnits h
  refine ⟨GraphDocument.reads_back_iff hinv sourceRoot hstats htime, fun htrees hlibrary => ?_⟩
  have hinputs :
      Program.ReadableInputs (sources.files.map fun f => read f.path f.content) library := by
    refine ⟨fun u hu => ?_, hlibrary⟩
    obtain ⟨f, hf, rfl⟩ := List.mem_map.mp hu
    obtain ⟨hasErrors, tree, htree, hnames⟩ := htrees f hf
    rw [htree]
    exact CompilationUnit.readable_ofTree hnames f.path hasErrors
  have hedges := wellFormed_of_mem_edges hinputs h
  have hfits := GraphDocument.fits_ofGraph (GraphDocument.readable_of_edges hinv hedges) sourceRoot
    hstats htime
  exact ⟨GraphDocument.read_write hfits, GraphDocument.toGraph_ofGraph hinv _ _ _,
    fun files made dir n place hmade hname hpath => Artifact.read_write hfits hmade hname hpath⟩

section Creating

open JavaCallGraph.Tree (creation statement methodOf classOf packageOf fileOf)

/-- The tree of `package p; class A { } class B { void f() { new A(); } }`, by the name of `A`. -/
def creating (name : String) : SyntaxTree :=
  fileOf [packageOf "p", classOf name [],
    classOf "B" [methodOf "f" [] [statement (creation name [] [])]]]

def creator (name : String) : SourceSet := ⟨".", [⟨"p.java", (creating name).text, "0"⟩], 1⟩

def readCreating (name : String) : UnitReader := fun path _ => .ofTree path false (creating name)

def rootClass : Library where
  types := (∅ : NameMap LibraryType).insert Descriptor.objectName { methods := ["Object()"] }

theorem createDirAll_out : FileTree.createDirAll {} "out" =
    (FileTree.put {} ["out"] .dir, .ok ["out"]) := by
  have hparts : FileTree.pathParts? "out" = some ([], ["out"]) :=
    FileTree.pathParts?_eq_some_iff.mpr ⟨by decide,
      FileTree.isPath_iff.mpr (by decide +kernel), by decide +kernel, by decide +kernel⟩
  rw [FileTree.createDirAll, if_neg (by decide), FileTree.createDirs, hparts]
  rfl

/-- The dollar sign inside the name does no harm, and the artifact is read back from its file. -/
theorem graph_reads_back_nested : ∃ outcome,
    ofSources (creator "A$B") (readCreating "A$B") rootClass {} = .ok outcome ∧
      outcome.graph.edges = [(⟨"p.B", "f", [], .void⟩, ⟨"p.A$B", "B", [], .void⟩)] ∧
      let document := GraphDocument.ofGraph outcome.graph "src" outcome.stats 42
      GraphDocument.read document.write = .ok document ∧ document.toGraph = outcome.graph ∧
      ∃ after, Artifact.write {} "out" document = (after, .ok "out/callgraph-42.json") ∧
        Artifact.read after "out/callgraph-42.json" = .ok document := by
  obtain ⟨outcome, houtcome, hchecked⟩ := exists_ok_of_any
    (ofSources (creator "A$B") (readCreating "A$B") rootClass {})
    (fun outcome => decide (outcome.graph.edges =
      [(⟨"p.B", "f", [], .void⟩, ⟨"p.A$B", "B", [], .void⟩)] ∧ outcome.stats.Fits))
    (by decide +kernel)
  obtain ⟨hedges, hstats⟩ := of_decide_eq_true hchecked
  have htrees : ReadableTrees (creator "A$B") (readCreating "A$B") :=
    fun _ _ => ⟨false, creating "A$B", rfl, by decide +kernel⟩
  have hlibrary : rootClass.NamesReadable := by
    intro name hname
    have heq : Descriptor.objectName = name := by simpa [rootClass] using hname
    rw [← heq]
    decide
  obtain ⟨hread, hgraph, hfile⟩ := (graph_reads_back houtcome "src" hstats
    (show 42 < UInt64.size by decide)).2 htrees hlibrary
  have hjoin : FileTree.join "out" "callgraph-42.json" = "out/callgraph-42.json" := by
    decide +kernel
  have hwritten := hfile {} _ "out" "callgraph-42.json" _ createDirAll_out (by decide +kernel)
    (FileTree.isPath_iff.mpr (by decide +kernel))
  rw [hjoin] at hwritten
  exact ⟨outcome, houtcome, hedges, hread, hgraph, hwritten⟩

/-- A class whose name ends in a dollar sign has a constructor without a name. -/
theorem not_reads_back_dollar : ∃ outcome,
    ofSources (creator "A$") (readCreating "A$") {} {} = .ok outcome ∧
      ∀ (sourceRoot : String) (stats : Stats) (generatedAt : Nat),
        ¬ ∃ d, GraphDocument.read (GraphDocument.ofGraph outcome.graph sourceRoot stats
          generatedAt).write = .ok d ∧ d.toGraph = outcome.graph := by
  obtain ⟨outcome, houtcome, hedge⟩ := exists_ok_of_any
    (ofSources (creator "A$") (readCreating "A$") {} {})
    (fun outcome => decide (∃ e ∈ outcome.graph.edges, ¬ e.2.WellFormed)) (by decide +kernel)
  obtain ⟨e, he, hill⟩ := of_decide_eq_true hedge
  refine ⟨outcome, houtcome, ?_⟩
  rintro sourceRoot stats generatedAt ⟨d, hd, hgraph⟩
  rw [← hgraph] at he
  exact hill (GraphDocument.wellFormed_of_reads_back hd e he).2

end Creating

end Analysis

end JavaCallGraph
