import JavaCallGraph.Graph.Document
import JavaCallGraph.Proofs.Attempts
import JavaCallGraph.Proofs.GraphEdges
import JavaCallGraph.Proofs.JsonRoundTrip
import JavaCallGraph.Proofs.SignatureCodec

/-!
# Reading back graph documents

A document is read back from its text if its figures fit into the numbers of the format and every
signature in it can be read back from its own text. The graph of the document is then the graph it
was made from.
-/

namespace JavaCallGraph

namespace Json

/-- Fields with distinct, known and new names are all added, and those that were there stay. -/
theorem exists_foldlM_addField {names : List String} (strict : Bool)
    {members : List (String × Json)} (hnodup : (members.map Prod.fst).Nodup)
    (hnames : ∀ p ∈ members, p.1 ∈ names) {start : Fields} (hnew : ∀ p ∈ members, p.1 ∉ start) :
    ∃ fields : Fields,
      (members.map fun p => (some p.1, p.2)).foldlM (addField names strict) start = .ok fields ∧
      (∀ p ∈ members, fields[p.1]? = some p.2) ∧
      ∀ name ∉ members.map Prod.fst, fields[name]? = start[name]? := by
  induction members generalizing start with
  | nil => exact ⟨start, rfl, by simp, by simp⟩
  | cons p members ih =>
    obtain ⟨name, value⟩ := p
    have hknown : name ∈ names := hnames _ List.mem_cons_self
    have hfresh : start.contains name = false := by
      rw [Bool.eq_false_iff, ne_eq, Std.ExtTreeMap.contains_iff_mem]
      exact hnew _ List.mem_cons_self
    have hadd : addField names strict start (some name, value) = .ok (start.insert name value) := by
      simp [addField, memberName, hknown, hfresh, bind, Except.bind, pure, Except.pure]
    obtain ⟨hfirst, hrest⟩ := List.nodup_cons.mp hnodup
    have hapart : ∀ q ∈ members, q.1 ∉ start.insert name value := by
      intro q hq hmem
      rw [Std.ExtTreeMap.mem_insert, Std.LawfulEqCmp.compare_eq_iff_eq] at hmem
      rcases hmem with rfl | hmem
      · exact hfirst (List.mem_map.mpr ⟨q, hq, rfl⟩)
      · exact hnew q (List.mem_cons_of_mem _ hq) hmem
    obtain ⟨fields, hfields, hgiven, hkept⟩ :=
      ih hrest (fun q hq => hnames q (List.mem_cons_of_mem _ hq)) hapart
    refine ⟨fields, ?_, ?_, ?_⟩
    · rw [List.map_cons, List.foldlM_cons, hadd]
      exact hfields
    · intro q hq
      rcases List.mem_cons.mp hq with rfl | hq
      · rw [hkept name hfirst]
        simp
      · exact hgiven q hq
    · intro other hother
      rw [List.map_cons, List.mem_cons, not_or] at hother
      rw [hkept other hother.2, Std.ExtTreeMap.getElem?_insert, if_neg]
      simpa using Ne.symm hother.1

/-- A record with distinct names that are all known gives each of its fields its value. -/
theorem exists_asRecord_record (names : List String) (strict : Bool)
    (members : List (String × Json)) (hnodup : (members.map Prod.fst).Nodup)
    (hnames : ∀ p ∈ members, p.1 ∈ names) :
    ∃ fields, asRecord names strict (.record members) = .ok fields ∧
      ∀ p ∈ members, fields[p.1]? = some p.2 := by
  obtain ⟨fields, hfields, hgiven, -⟩ :=
    exists_foldlM_addField strict hnodup hnames (fun p _ => Std.ExtTreeMap.not_mem_empty)
  exact ⟨fields, hfields, hgiven⟩

theorem asNatural_natural {bound n : Nat} (h : n < bound) :
    asNatural bound (.natural n) = .ok n := if_pos h

end Json

namespace Stats

def Fits (s : Stats) : Prop :=
  ∀ n ∈ [s.filesSeen, s.units, s.unitsFailed, s.types, s.bodies, s.roots, s.edges, s.elapsedMs],
    n < UInt64.size

instance (s : Stats) : Decidable s.Fits := inferInstanceAs (Decidable (∀ n ∈ _, n < _))

open Json

theorem ofJson_toJson {s : Stats} (hs : s.Fits) : ofJson s.toJson = .ok s := by
  obtain ⟨fields, hfields, hgiven⟩ := exists_asRecord_record fieldNames false [
    ("files_seen", .natural s.filesSeen), ("units", .natural s.units),
    ("units_failed", .natural s.unitsFailed), ("types", .natural s.types),
    ("bodies", .natural s.bodies), ("roots", .natural s.roots), ("edges", .natural s.edges),
    ("elapsed_ms", .natural s.elapsedMs)] (by simp) (by simp [fieldNames])
  simp only [List.forall_mem_cons] at hgiven
  simp only [Fits, List.forall_mem_cons] at hs
  rw [ofJson, toJson, hfields]
  simp [Fields.getD, hgiven, asNatural_natural, hs, bind, Except.bind, pure, Except.pure]

theorem isPlain_toJson (s : Stats) : s.toJson.IsPlain := by
  simp [toJson, record, IsPlain, MembersPlain]

end Stats

namespace GraphDocument

open Json

theorem readSignature_encode {s : Signature} (hs : s.WellFormed) :
    readSignature s.encode = .ok s := by
  rw [readSignature, Signature.decode_encode hs]

theorem readCallees_toJson {callees : SignatureSet} (h : ∀ s ∈ callees, s.WellFormed) :
    readCallees (.array (callees.toList.map signatureJson)) = .ok callees := by
  have htexts : asList asText (.array (callees.toList.map signatureJson)) =
      .ok (callees.toList.map Signature.encode) := by
    rw [asList, List.mapM_map]
    exact mapM_eq_ok fun _ _ => rfl
  have hsignatures : (callees.toList.map Signature.encode).mapM readSignature =
      .ok callees.toList := by
    rw [List.mapM_map, mapM_eq_ok (g := id), List.map_id]
    intro s hs
    have hwell := h s (Std.ExtTreeSet.mem_toList.mp hs)
    rw [Function.comp_apply, readSignature_encode hwell, id]
  have hset : Std.ExtTreeSet.ofList callees.toList = callees :=
    Std.ExtTreeSet.ext_mem fun s => by simp
  refine bind_eq_ok_iff.mpr ⟨_, htexts, bind_eq_ok_iff.mpr ⟨_, hsignatures, ?_⟩⟩
  rw [hset]
  rfl

def Readable (graph : SignatureMap SignatureSet) : Prop :=
  ∀ (s : Signature) (callees : SignatureSet), graph[s]? = some callees →
    s.WellFormed ∧ ∀ t ∈ callees, t.WellFormed

theorem readGraph_graphJson {graph : SignatureMap SignatureSet} (h : Readable graph) :
    readGraph (graphJson graph) = .ok graph := by
  have hentry : ∀ p ∈ graph.toList, p.1.WellFormed ∧ ∀ t ∈ p.2, t.WellFormed :=
    fun p hp => h p.1 p.2 (Std.ExtTreeMap.mem_toList_iff_getElem?_eq_some.mp hp)
  have hmembers : asMembers readCallees (graphJson graph) =
      .ok (graph.toList.map fun p => (p.1.encode, p.2)) := by
    rw [graphJson, record, asMembers, List.map_map, List.mapM_map]
    refine mapM_eq_ok fun p hp => ?_
    exact bind_eq_ok_iff.mpr ⟨_, rfl,
      bind_eq_ok_iff.mpr ⟨_, readCallees_toJson (hentry p hp).2, rfl⟩⟩
  have hinsert : (graph.toList.map fun p => (p.1.encode, p.2)).foldlM
      (fun (graph : SignatureMap SignatureSet) p =>
        return graph.insert (← readSignature p.1) p.2) ∅ = .ok graph := by
    rw [List.foldlM_map, foldlM_eq_ok (g := fun map p => map.insert p.1 p.2),
      foldl_insert_toList]
    intro p hp map
    dsimp only
    rw [readSignature_encode (hentry p hp).1]
    rfl
  exact bind_eq_ok_iff.mpr ⟨_, hmembers, hinsert⟩

theorem isPlain_graphJson (graph : SignatureMap SignatureSet) : (graphJson graph).IsPlain := by
  refine membersPlain_iff.mpr fun m hm => ?_
  rw [List.map_map] at hm
  obtain ⟨p, -, rfl⟩ := List.mem_map.mp hm
  refine ⟨rfl, arePlain_iff.mpr fun item hitem => ?_⟩
  obtain ⟨s, -, rfl⟩ := List.mem_map.mp hitem
  exact rfl

structure Fits (d : GraphDocument) : Prop where
  version : d.schemaVersion < UInt32.size
  time : d.generatedAt < UInt64.size
  stats : d.stats.Fits
  graph : Readable d.graph

theorem ofJson_toJson {d : GraphDocument} (hd : d.Fits) : ofJson d.toJson = .ok d := by
  obtain ⟨fields, hfields, hgiven⟩ := exists_asRecord_record fieldNames false [
    ("schema_version", .natural d.schemaVersion), ("generated_at", .natural d.generatedAt),
    ("source_root", .text d.sourceRoot), ("stats", d.stats.toJson), ("graph", graphJson d.graph)]
    (by simp) (by simp [fieldNames])
  simp only [List.forall_mem_cons] at hgiven
  rw [ofJson, toJson, hfields]
  simp [Fields.get, hgiven, asNatural_natural, hd.version, hd.time, text, asText,
    Stats.ofJson_toJson hd.stats, readGraph_graphJson hd.graph, bind, Except.bind, pure,
    Except.pure]

theorem isPlain_toJson (d : GraphDocument) : d.toJson.IsPlain := by
  simp [toJson, record, text, IsPlain, MembersPlain, Stats.isPlain_toJson, isPlain_graphJson]

theorem read_write {d : GraphDocument} (hd : d.Fits) : read d.write = .ok d :=
  bind_eq_ok_iff.mpr ⟨_, parse_pretty d.isPlain_toJson, ofJson_toJson hd⟩

theorem mem_edges_toGraph {d : GraphDocument} {e : Edge} :
    e ∈ d.toGraph.edges ↔ e ∈ CallGraph.edgesOf d.graph := by
  rw [toGraph, CallGraph.ofList, CallGraph.mem_edges_extend]
  simp [CallGraph.edges, CallGraph.edgesOf, CallGraph.empty]

theorem toGraph_ofGraph {g : CallGraph} (hg : g.Inv) (sourceRoot : String) (stats : Stats)
    (generatedAt : Nat) : (ofGraph g sourceRoot stats generatedAt).toGraph = g :=
  (CallGraph.inv_empty.extend _).eq_of_mem_edges_iff hg fun _ => mem_edges_toGraph

/-! ### Only readable documents are read -/

theorem wellFormed_of_readSignature {text : String} {s : Signature}
    (h : readSignature text = .ok s) : s.WellFormed := by
  unfold readSignature at h
  split at h
  · next hdecode =>
    cases h
    exact (Signature.of_decode hdecode).1
  · cases h

theorem wellFormed_of_readCallees {value : Json} {callees : SignatureSet}
    (h : readCallees value = .ok callees) : ∀ s ∈ callees, s.WellFormed := by
  obtain ⟨texts, -, h⟩ := bind_eq_ok_iff.mp h
  obtain ⟨signatures, hsignatures, h⟩ := bind_eq_ok_iff.mp h
  cases h
  intro s hs
  have hmem := List.contains_iff_mem.mp (Std.ExtTreeSet.mem_ofList.mp hs)
  obtain ⟨text, -, htext⟩ := exists_of_mapM_eq_ok hsignatures s hmem
  exact wellFormed_of_readSignature htext

theorem readable_of_readGraph {value : Json} {graph : SignatureMap SignatureSet}
    (h : readGraph value = .ok graph) : Readable graph := by
  obtain ⟨members, hmembers, h⟩ := bind_eq_ok_iff.mp h
  refine foldlM_induction (fun p hp graph graph' hgraph hstep => ?_) (fun s callees hs => ?_) h
  · obtain ⟨name, callees⟩ := p
    obtain ⟨s, hs, hstep⟩ := bind_eq_ok_iff.mp hstep
    cases hstep
    refine forall_getElem?_insert hgraph ⟨wellFormed_of_readSignature hs, ?_⟩
    unfold asMembers at hmembers
    split at hmembers
    · obtain ⟨member, -, hmember⟩ := exists_of_mapM_eq_ok hmembers _ hp
      obtain ⟨_, -, hmember⟩ := bind_eq_ok_iff.mp hmember
      obtain ⟨_, hcallees, hmember⟩ := bind_eq_ok_iff.mp hmember
      cases hmember
      exact wellFormed_of_readCallees hcallees
    · cases hmembers
  · simp at hs

theorem readable_of_read {text : String} {d : GraphDocument} (h : read text = .ok d) :
    Readable d.graph := by
  obtain ⟨value, -, h⟩ := bind_eq_ok_iff.mp h
  obtain ⟨fields, -, h⟩ := bind_eq_ok_iff.mp h
  obtain ⟨version, -, h⟩ := bind_eq_ok_iff.mp h
  obtain ⟨time, -, h⟩ := bind_eq_ok_iff.mp h
  obtain ⟨root, -, h⟩ := bind_eq_ok_iff.mp h
  obtain ⟨stats, -, h⟩ := bind_eq_ok_iff.mp h
  obtain ⟨graph, hgraph, h⟩ := bind_eq_ok_iff.mp h
  cases h
  unfold Fields.get at hgraph
  split at hgraph
  · exact readable_of_readGraph hgraph
  · cases hgraph

theorem Readable.of_mem_edgesOf {graph : SignatureMap SignatureSet} (h : Readable graph) {e : Edge}
    (he : e ∈ CallGraph.edgesOf graph) : e.1.WellFormed ∧ e.2.WellFormed := by
  obtain ⟨⟨s, callees⟩, hmem, he⟩ := List.mem_flatMap.mp he
  obtain ⟨t, ht, rfl⟩ := List.mem_map.mp he
  obtain ⟨hs, hcallees⟩ := h s callees (Std.ExtTreeMap.mem_toList_iff_getElem?_eq_some.mp hmem)
  exact ⟨hs, hcallees t (Std.ExtTreeSet.mem_toList.mp ht)⟩

theorem readable_of_edges {g : CallGraph} (hg : g.Inv)
    (h : ∀ e ∈ g.edges, e.1.WellFormed ∧ e.2.WellFormed) : Readable g.callees := by
  intro s callees hs
  have hedge {t : Signature} (ht : t ∈ callees) : s.WellFormed ∧ t.WellFormed := by
    refine h (s, t) (CallGraph.mem_edges.mpr (CallGraph.contains_iff.mpr ?_))
    rw [CallGraph.calleesOf, hs]
    exact ht
  obtain ⟨t, ht⟩ := hg.exists_callee s callees hs
  exact ⟨(hedge ht).1, fun t ht => (hedge ht).2⟩

theorem fits_ofGraph {g : CallGraph} (hg : Readable g.callees) (sourceRoot : String) {stats : Stats}
    (hstats : stats.Fits) {generatedAt : Nat} (htime : generatedAt < UInt64.size) :
    (ofGraph g sourceRoot stats generatedAt).Fits where
  version := show currentVersion < UInt32.size by decide
  time := htime
  stats := hstats
  graph := hg

theorem wellFormed_of_reads_back {text : String} {d : GraphDocument} (h : read text = .ok d) :
    ∀ e ∈ d.toGraph.edges, e.1.WellFormed ∧ e.2.WellFormed :=
  fun _ he => (readable_of_read h).of_mem_edgesOf (mem_edges_toGraph.mp he)

/-- The document of a graph is read back exactly if both ends of every edge are well formed. -/
theorem reads_back_iff {g : CallGraph} (hg : g.Inv) (sourceRoot : String) {stats : Stats}
    (hstats : stats.Fits) {generatedAt : Nat} (htime : generatedAt < UInt64.size) :
    (∃ d, read (ofGraph g sourceRoot stats generatedAt).write = .ok d ∧ d.toGraph = g) ↔
      ∀ e ∈ g.edges, e.1.WellFormed ∧ e.2.WellFormed := by
  constructor
  · rintro ⟨d, hd, rfl⟩
    exact wellFormed_of_reads_back hd
  · intro h
    have hfits := fits_ofGraph (readable_of_edges hg h) sourceRoot hstats htime
    exact ⟨_, read_write hfits, toGraph_ofGraph hg sourceRoot stats generatedAt⟩

end GraphDocument

end JavaCallGraph
