import JavaCallGraph.Analysis
import JavaCallGraph.Proofs.GraphEdges
import JavaCallGraph.Proofs.PlainClasses
import JavaCallGraph.Proofs.ProgramBodies
import JavaCallGraph.Proofs.WalkCallees

/-!
# Both ends of an edge

Every edge of an analysed program leads from the framework root to a body, or from a body of a unit
without syntax errors to a method that the catalog has.
-/

namespace JavaCallGraph

theorem Engine.exists_of_mem_mapM {α β : Type} {f : α → StateM Engine β} {l : List α} {e : Engine}
    {b : β} (hb : b ∈ ((l.mapM f).run e).1) : ∃ a ∈ l, ∃ e', b = ((f a).run e').1 := by
  induction l generalizing e with
  | nil =>
    rw [List.mapM_nil] at hb
    cases hb
  | cons a l ih =>
    rw [List.mapM_cons, run_bind, run_bind] at hb
    rcases List.mem_cons.mp hb with rfl | hb
    · exact ⟨a, List.mem_cons_self, e, rfl⟩
    · obtain ⟨c, hc, e', rfl⟩ := ih hb
      exact ⟨c, List.mem_cons_of_mem a hc, e', rfl⟩

namespace Program

variable {p : Program} {e : Edge}

theorem exists_of_mem_bodyEdges {bodies : List Signature} {engine : Engine}
    (he : e ∈ ((p.bodyEdges bodies).run engine).1) :
    e.1 ∈ bodies ∧ ∃ engine, e.2 ∈ ((Engine.callees p e.1).run engine).1 := by
  obtain ⟨edges, hedges, he⟩ := List.mem_flatten.mp he
  obtain ⟨s, hs, engine', rfl⟩ := Engine.exists_of_mem_mapM hedges
  obtain ⟨t, ht, rfl⟩ := List.mem_map.mp he
  exact ⟨hs, engine', Std.ExtTreeSet.mem_toList.mp ht⟩

theorem of_mem_unitEdges {unit : Nat} (he : e ∈ p.unitEdges unit) :
    ∃ u body, p.units[unit]? = some u ∧ u.hasErrors = false ∧ p.body? e.1 = some body ∧
      body.source.ref.unit = unit ∧ p.index.Knows e.2 := by
  unfold unitEdges at he
  split at he
  · cases he
  · next u hu =>
    split at he
    · cases he
    · next hok =>
      obtain ⟨hcaller, engine, hcallee⟩ := exists_of_mem_bodyEdges he
      obtain ⟨⟨s, body⟩, hmem, hs⟩ := List.mem_map.mp hcaller
      obtain ⟨hbody, hunit⟩ := mem_unitBodies.mp hmem
      refine ⟨u, body, hu, Bool.eq_false_iff.mpr hok, ?_, hunit,
        Engine.knows_of_mem_callees hcallee⟩
      exact hs ▸ hbody

theorem mem_edges_callEdges : e ∈ p.callEdges.edges ↔ ∃ unit, e ∈ p.unitEdges unit := by
  have hfold (units : List Nat) (g : CallGraph) :
      e ∈ (units.foldl (fun g unit => g.extend (p.unitEdges unit)) g).edges ↔
        e ∈ g.edges ∨ ∃ unit ∈ units, e ∈ p.unitEdges unit := by
    induction units generalizing g with
    | nil => simp
    | cons unit units ih => simp [ih, CallGraph.mem_edges_extend, or_assoc]
  rw [callEdges, hfold]
  constructor
  · rintro (he | ⟨unit, -, he⟩)
    · simp [CallGraph.edges, CallGraph.edgesOf, CallGraph.empty] at he
    · exact ⟨unit, he⟩
  · rintro ⟨unit, he⟩
    obtain ⟨u, -, hu, -⟩ := of_mem_unitEdges he
    obtain ⟨hunit, -⟩ := Array.getElem?_eq_some_iff.mp hu
    exact .inr ⟨unit, List.mem_range.mpr hunit, he⟩

theorem inv_callEdges (p : Program) : p.callEdges.Inv :=
  List.foldlRecOn _ _ CallGraph.inv_empty fun _ hg _ _ => hg.extend _

theorem isSome_body?_of_mem_roots {callbacks : Callbacks} {withMain : Bool} {s : Signature}
    (hs : s ∈ p.roots callbacks withMain) : (p.body? s).isSome := by
  have hmem := List.contains_iff_mem.mp (Std.ExtTreeSet.mem_ofList.mp hs)
  obtain ⟨node, -, hs⟩ := List.mem_flatMap.mp hmem
  unfold rootsOf at hs
  have hstarted {s : Signature} (hs : s ∈ (node.methods.filter fun m =>
      (p.body? m.signature).isSome && (p.isCallback callbacks node m || withMain && m.isMain)).map
        Method.signature) : (p.body? s).isSome := by
    obtain ⟨m, hm, rfl⟩ := List.mem_map.mp hs
    exact (Bool.and_eq_true_iff.mp (List.mem_filter.mp hm).2).1
  dsimp only at hs
  split at hs
  · next hinit =>
    rcases List.mem_append.mp hs with hs | hs
    · exact hstarted hs
    · rwa [List.mem_singleton.mp hs]
  · exact hstarted hs

theorem isSome_method?_of_knows {units : List CompilationUnit} {library : Library}
    {policy : CyclePolicy} (h : build units library policy = .ok p) {s : Signature}
    (hs : p.index.Knows s) : (p.catalog.method? s).isSome := by
  obtain ⟨m, hm, rfl⟩ := hs
  change p.catalog.Lists m at hm
  rw [catalog_of_build h] at hm ⊢
  exact Catalog.isSome_method?_of_lists hm

end Program

namespace Analysis

variable {filesSeen : Nat} {units : List CompilationUnit} {library : Library}
  {options : AnalysisOptions} {outcome : Outcome}

theorem ofUnits_eq_ok_iff : ofUnits filesSeen units library options = .ok outcome ↔
    ∃ p, Program.build units library options.cyclePolicy = .ok p ∧
      let roots := p.roots library.callbacks options.mainMethodsAsRoots
      let graph := p.callEdges.extend (roots.toList.map (Signature.frameworkRoot, ·))
      outcome = ⟨graph, {
        filesSeen
        units := units.length
        unitsFailed := units.countP (·.hasErrors)
        types := p.sourceTypeCount
        bodies := p.bodyCount
        roots := roots.size
        edges := graph.edgeCount }⟩ := by
  unfold ofUnits
  rw [bind_eq_ok_iff]
  refine exists_congr fun p => and_congr_right fun _ => ?_
  exact ⟨fun h => (Except.ok.inj h).symm, fun h => congrArg Except.ok h.symm⟩

/-- No edge dangles. -/
theorem edges_resolved {sources : SourceSet} {read : UnitReader}
    (h : ofSources sources read library options = .ok outcome) :
    ∃ p, Program.build (sources.files.map fun f => read f.path f.content) library
        options.cyclePolicy = .ok p ∧
      (∀ e ∈ outcome.graph.edges,
        (e.1 = .frameworkRoot ∧ (p.body? e.2).isSome) ∨
        (∃ body u, p.body? e.1 = some body ∧ p.StandsIn body u ∧ u.hasErrors = false ∧
          (p.catalog.method? e.2).isSome)) ∧
      (∀ s body u, p.body? s = some body → p.StandsIn body u → u.hasErrors → s ≠ .frameworkRoot →
        outcome.graph.calleesOf s = ∅) ∧
      outcome.graph.edges.Nodup ∧ outcome.stats.edges = outcome.graph.edges.length := by
  obtain ⟨p, hp, rfl⟩ := ofUnits_eq_ok_iff.mp h
  have hends : ∀ e ∈ (p.callEdges.extend ((p.roots library.callbacks
      options.mainMethodsAsRoots).toList.map (Signature.frameworkRoot, ·))).edges,
      (e.1 = .frameworkRoot ∧ (p.body? e.2).isSome) ∨
      (∃ body u, p.body? e.1 = some body ∧ p.StandsIn body u ∧ u.hasErrors = false ∧
        (p.catalog.method? e.2).isSome) := by
    intro e he
    rcases CallGraph.mem_edges_extend.mp he with hcall | hroot
    · obtain ⟨unit, hunit⟩ := Program.mem_edges_callEdges.mp hcall
      obtain ⟨u, body, hu, hok, hbody, rfl, hknown⟩ := Program.of_mem_unitEdges hunit
      obtain ⟨v, hv, hdecl⟩ := Program.exists_standsIn_of_build hp hbody
      obtain rfl : v = u := Option.some.inj (hv.symm.trans hu)
      exact .inr ⟨body, v, hbody, ⟨hv, hdecl⟩, hok, Program.isSome_method?_of_knows hp hknown⟩
    · obtain ⟨s, hs, rfl⟩ := List.mem_map.mp hroot
      exact .inl ⟨rfl, Program.isSome_body?_of_mem_roots (Std.ExtTreeSet.mem_toList.mp hs)⟩
  refine ⟨p, hp, hends, ?_, CallGraph.nodup_edgesOf _, ((p.inv_callEdges).extend _).counted⟩
  intro s body u hbody hstands herrors hroot
  refine Std.ExtTreeSet.eq_empty_iff_forall_not_mem.mpr fun t ht => ?_
  rcases hends (s, t) (CallGraph.mem_edges.mpr (CallGraph.contains_iff.mpr ht)) with
    ⟨hs, -⟩ | ⟨body', u', hbody', hstands', hok, -⟩
  · exact hroot hs
  · obtain rfl : body' = body := Option.some.inj (hbody'.symm.trans hbody)
    obtain rfl : u' = u := Option.some.inj (hstands'.1.symm.trans hstands.1)
    rw [herrors] at hok
    cases hok

section Broken

/-- Both classes call `f`; the file of the second one has syntax errors. -/
def readCallers : UnitReader := fun path _ =>
  let call : List Stmt := [.expr (.call (.expr (.new (.named "B") [] none 1)) "f" [] 1)]
  if path = "A.java" then
    .plain [
      .plain "A" none [{ MethodDecl.plain "main" [] "void" call with
        modifiers := { isStatic := true },
        params := [⟨"args", ⟨"java.lang.String", [], 1⟩, false⟩] }],
      .plain "B" none [.plain "f" [] "void" []]]
  else { CompilationUnit.plain [.plain "C" none [.plain "g" [] "void" call]] with
    hasErrors := true }

def callers : SourceSet := ⟨".", [⟨"A.java", "", "0"⟩, ⟨"C.java", "", "1"⟩], 2⟩

def brokenCaller : Signature := ⟨"p.C", "g", [], .void⟩

/-- The call out of the sound file and the entry point are edges, the call out of the broken one
is not. -/
theorem edges_resolved_callers : ∃ outcome, ofSources callers readCallers {} {} = .ok outcome ∧
    outcome.stats.edges = 3 ∧ outcome.graph.calleesOf brokenCaller = ∅ ∧
    ∃ p, Program.build (callers.files.map fun f => readCallers f.path f.content) {} .degrade =
        .ok p ∧ (p.body? brokenCaller).isSome ∧
      ∀ e ∈ outcome.graph.edges, e.1 ≠ .frameworkRoot → (p.catalog.method? e.2).isSome := by
  obtain ⟨outcome, houtcome, hedges⟩ := exists_ok_of_any (ofSources callers readCallers {} {})
    (fun outcome => decide (outcome.stats.edges = 3)) (by decide +kernel)
  obtain ⟨p, hp, hbroken⟩ := exists_ok_of_any
    (Program.build (callers.files.map fun f => readCallers f.path f.content) {} .degrade)
    (fun p => (p.body? brokenCaller).any fun body =>
      p.units[body.source.ref.unit]?.any fun u => u.hasErrors) (by decide +kernel)
  obtain ⟨p', hp', hends, herrors, -⟩ := edges_resolved houtcome
  obtain rfl : p' = p := Except.ok.inj (hp'.symm.trans hp)
  obtain ⟨body, hbody, hunit⟩ := (Option.any_eq_true _ _).mp hbroken
  obtain ⟨u, hu, hfails⟩ := (Option.any_eq_true _ _).mp hunit
  obtain ⟨v, hv, hdecl⟩ := Program.exists_standsIn_of_build hp hbody
  obtain rfl : v = u := Option.some.inj (hv.symm.trans hu)
  refine ⟨outcome, houtcome, of_decide_eq_true hedges, ?_, p', hp, by simp [hbody], ?_⟩
  · exact herrors brokenCaller body v hbody ⟨hu, hdecl⟩ hfails (by decide)
  · intro e he hroot
    rcases hends e he with ⟨heq, -⟩ | ⟨_, _, -, -, -, hmethod⟩
    · exact absurd heq hroot
    · exact hmethod

end Broken

end Analysis

end JavaCallGraph
