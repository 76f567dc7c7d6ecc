import JavaCallGraph.Proofs.EdgeEnds
import JavaCallGraph.Proofs.Placement

/-!
# The order of the units

Where no two units declare a type of the same name, the units can be analysed in any order: the
graph, the figures and the error, if there is one, are the same.
-/

namespace JavaCallGraph

theorem findSome?_eq_of_perm {α β : Type} {l l' : List α} {f : α → Option β} (hperm : l.Perm l')
    (hunique : ∀ a ∈ l, ∀ b ∈ l, (f a).isSome → (f b).isSome → a = b) :
    l.findSome? f = l'.findSome? f := by
  cases hl : l.findSome? f with
  | none =>
    rw [List.findSome?_eq_none_iff] at hl
    exact (List.findSome?_eq_none_iff.mpr fun a ha => hl a (hperm.mem_iff.mpr ha)).symm
  | some b =>
    obtain ⟨a, ha, hab⟩ := List.exists_of_findSome?_eq_some hl
    cases hl' : l'.findSome? f with
    | none =>
      have hnone := List.findSome?_eq_none_iff.mp hl' a (hperm.mem_iff.mp ha)
      rw [hab] at hnone
      cases hnone
    | some c =>
      obtain ⟨a', ha', hac⟩ := List.exists_of_findSome?_eq_some hl'
      have haa : a = a' := hunique a ha a' (hperm.mem_iff.mpr ha') (by simp [hab]) (by simp [hac])
      rw [← haa, hab] at hac
      exact hac

def CompilationUnit.NamesApart (units : List CompilationUnit) : Prop :=
  ∀ u ∈ units, ∀ v ∈ units, ∀ a ∈ u.types, ∀ b ∈ v.types, a.name = b.name → u = v

namespace Declarations

open CompilationUnit (NamesApart)

variable {units units' : List CompilationUnit} {name : String} {source : SourceType}

/-- The declaration of a name in a unit, without its place. -/
def inUnit (name : String) (u : CompilationUnit) : Option SourceType :=
  (u.types.find? (·.name = name)).map (⟨default, .ofUnit u, ·⟩)

theorem getElem?_anywhere_ofUnits (units : List CompilationUnit) (name : String) :
    (ofUnits units).anywhere[name]? = units.findSome? (inUnit name) := by
  have hunit (u : CompilationUnit) (i : Nat) :
      ((u.types.zipIdx.map fun p => (⟨⟨i, p.2⟩, .ofUnit u, p.1⟩ : SourceType)).find?
        (·.decl.name = name)).map SourceType.anywhere = inUnit name u := by
    rw [inUnit, ← List.zipIdx_map_fst 0 u.types, List.find?_map, List.find?_map,
      List.zipIdx_map_fst, Option.map_map, Option.map_map]
    rfl
  rw [getElem?_anywhere, getElem?_ofUnits, listed, List.find?_flatMap, List.map_findSome?]
  have hfun : (Option.map SourceType.anywhere ∘ fun entry : CompilationUnit × Nat =>
      (entry.1.types.zipIdx.map fun p =>
        (⟨⟨entry.2, p.2⟩, .ofUnit entry.1, p.1⟩ : SourceType)).find? (·.decl.name = name)) =
      inUnit name ∘ Prod.fst := by
    funext entry
    exact hunit entry.1 entry.2
  rw [← List.zipIdx_map_fst 0 units, List.findSome?_map, List.zipIdx_map_fst, ← hfun]

theorem anywhere_ofUnits_eq_of_perm (hperm : units.Perm units') (hnames : NamesApart units) :
    (ofUnits units).anywhere = (ofUnits units').anywhere := by
  apply Std.ExtTreeMap.ext_getElem?
  intro name
  rw [getElem?_anywhere_ofUnits, getElem?_anywhere_ofUnits]
  refine findSome?_eq_of_perm hperm fun u hu v hv hsome hsome' => ?_
  have hdeclares {u : CompilationUnit} (h : (inUnit name u).isSome) :
      ∃ d ∈ u.types, d.name = name := by
    rw [inUnit, Option.isSome_map, List.find?_isSome] at h
    simpa using h
  obtain ⟨a, ha, rfl⟩ := hdeclares hsome
  obtain ⟨b, hb, hab⟩ := hdeclares hsome'
  exact hnames u hu v hv a ha b hb hab.symm

theorem mem_ofUnits :
    name ∈ ofUnits units ↔ name ∈ (listed units).map (·.decl.name) := by
  rw [Std.ExtTreeMap.mem_iff_isSome_getElem?, getElem?_ofUnits, List.find?_isSome, List.mem_map]
  simp

theorem pairwise_listed (units : List CompilationUnit) :
    (listed units).Pairwise fun s t => s.ref.unit ≤ t.ref.unit := by
  rw [listed, List.pairwise_flatMap]
  constructor
  · intro entry _
    rw [List.pairwise_map]
    exact List.pairwise_of_forall fun _ _ => le_rfl
  · have hindices : (units.zipIdx.map Prod.snd).Pairwise (· < ·) := by
      rw [List.zipIdx_map_snd]
      exact List.pairwise_lt_range'
    refine (List.pairwise_map.mp hindices).imp fun {a b} hlt s hs t ht => ?_
    obtain ⟨_, -, rfl⟩ := List.mem_map.mp hs
    obtain ⟨_, -, rfl⟩ := List.mem_map.mp ht
    exact hlt.le

/-- The declaration that counts stands in the first unit that declares the name. -/
theorem unit_le_of_getElem?_ofUnits (h : (ofUnits units)[name]? = some source) {other : SourceType}
    (hother : other ∈ listed units) (hname : other.decl.name = name) :
    source.ref.unit ≤ other.ref.unit := by
  have hsorted := pairwise_listed units
  rw [getElem?_ofUnits, List.find?_eq_some_iff_append] at h
  obtain ⟨-, before, after, hlisted, hbefore⟩ := h
  rw [hlisted] at hother hsorted
  rcases List.mem_append.mp hother with hother | hother
  · have := hbefore other hother
    simp [hname] at this
  · rcases List.mem_cons.mp hother with rfl | hother
    · exact le_rfl
    · exact List.rel_of_pairwise_cons (List.pairwise_append.mp hsorted).2.1 hother

/-- Declarations that count stand at the same place of the list of units if their units are
equal. -/
theorem unit_eq_of_getElem?_eq {name' : String} {source' : SourceType}
    (h : (ofUnits units)[name]? = some source) (h' : (ofUnits units)[name']? = some source')
    (hunits : units[source.ref.unit]? = units[source'.ref.unit]?) :
    source.ref.unit = source'.ref.unit := by
  have hle {m n : String} {s t : SourceType} (hs : (ofUnits units)[m]? = some s)
      (ht : (ofUnits units)[n]? = some t) (heq : units[s.ref.unit]? = units[t.ref.unit]?) :
      s.ref.unit ≤ t.ref.unit := by
    obtain ⟨hmem, hname⟩ := of_getElem?_ofUnits hs
    obtain ⟨u, hu, hdecl, hscope⟩ := mem_listed.mp hmem
    have hthere : (⟨⟨t.ref.unit, s.ref.index⟩, s.scope, s.decl⟩ : SourceType) ∈ listed units :=
      mem_listed.mpr ⟨u, heq ▸ hu, hdecl, hscope⟩
    have hle := unit_le_of_getElem?_ofUnits hs hthere hname
    exact hle
  exact le_antisymm (hle h h' hunits) (hle h' h hunits.symm)

theorem getElem?_unit_eq_of_perm (hperm : units.Perm units') (hnames : NamesApart units)
    {source' : SourceType} (h : (ofUnits units)[name]? = some source)
    (h' : (ofUnits units')[name]? = some source') :
    units[source.ref.unit]? = units'[source'.ref.unit]? := by
  obtain ⟨hmem, hname⟩ := of_getElem?_ofUnits h
  obtain ⟨hmem', hname'⟩ := of_getElem?_ofUnits h'
  obtain ⟨u, hu, hdecl, -⟩ := mem_listed.mp hmem
  obtain ⟨v, hv, hdecl', -⟩ := mem_listed.mp hmem'
  have huv : u = v := hnames u (List.mem_of_getElem? hu) v
    (hperm.mem_iff.mpr (List.mem_of_getElem? hv)) _ (List.mem_of_getElem? hdecl) _
    (List.mem_of_getElem? hdecl') (hname.trans hname'.symm)
  rw [hu, hv, huv]

end Declarations

namespace Program

structure Reordered (p p' : Program) : Prop where
  anywhere_eq : p.anywhere = p'.anywhere
  unit_eq : ∀ s b b', p.body? s = some b → p'.body? s = some b' →
    p.units[b.source.ref.unit]? = p'.units[b'.source.ref.unit]?
  placed : ∀ s t b c, p.body? s = some b → p.body? t = some c →
    p.units[b.source.ref.unit]? = p.units[c.source.ref.unit]? →
      b.source.ref.unit = c.source.ref.unit
  placed' : ∀ s t b c, p'.body? s = some b → p'.body? t = some c →
    p'.units[b.source.ref.unit]? = p'.units[c.source.ref.unit]? →
      b.source.ref.unit = c.source.ref.unit

namespace Reordered

variable {p p' : Program}

theorem symm (h : Reordered p p') : Reordered p' p where
  anywhere_eq := h.anywhere_eq.symm
  unit_eq s b b' hb hb' := (h.unit_eq s b' b hb' hb).symm
  placed := h.placed'
  placed' := h.placed

theorem exists_body? (h : Reordered p p') {s : Signature} {b : Body} (hb : p.body? s = some b) :
    ∃ b', p'.body? s = some b' := by
  have hsome : (p'.body? s).isSome := by
    rw [← isSome_body?_anywhere, ← h.anywhere_eq, isSome_body?_anywhere, hb]
    rfl
  exact Option.isSome_iff_exists.mp hsome

theorem unit_eq_iff (h : Reordered p p') {s t : Signature} {b b' c c' : Body}
    (hb : p.body? s = some b) (hb' : p'.body? s = some b') (hc : p.body? t = some c)
    (hc' : p'.body? t = some c') :
    b.source.ref.unit = c.source.ref.unit ↔ b'.source.ref.unit = c'.source.ref.unit := by
  have hbb := h.unit_eq s b b' hb hb'
  have hcc := h.unit_eq t c c' hc hc'
  constructor
  · intro heq
    exact h.placed' s t b' c' hb' hc' (by rw [← hbb, ← hcc, heq])
  · intro heq
    exact h.placed s t b c hb hc (by rw [hbb, hcc, heq])

end Reordered

theorem map_fst_unitBodies (p : Program) (unit : Nat) : (p.unitBodies unit).map Prod.fst =
    p.bodies.keys.filter fun s => (p.body? s).any (·.source.ref.unit == unit) := by
  rw [← Std.ExtTreeMap.map_fst_toList_eq_keys, List.filter_map, unitBodies]
  congr 1
  refine List.filter_congr fun entry hentry => ?_
  have hbody : p.body? entry.1 = some entry.2 :=
    Std.ExtTreeMap.mem_toList_iff_getElem?_eq_some.mp hentry
  simp [hbody]

namespace Reordered

variable {p p' : Program}

theorem bodyEdges_eq (h : Reordered p p') : p.bodyEdges = p'.bodyEdges := by
  funext bodies
  rw [← bodyEdges_anywhere, h.anywhere_eq, bodyEdges_anywhere]

theorem keys_bodies_eq (h : Reordered p p') : p.bodies.keys = p'.bodies.keys := by
  have hkeys := congrArg (fun p : Program => p.bodies.keys) h.anywhere_eq
  simpa only [anywhere, BodyTable.anywhere, Std.ExtTreeMap.keys_map] using hkeys

theorem map_fst_unitBodies_eq (h : Reordered p p') {s : Signature} {b b' : Body}
    (hb : p.body? s = some b) (hb' : p'.body? s = some b') :
    (p.unitBodies b.source.ref.unit).map Prod.fst =
      (p'.unitBodies b'.source.ref.unit).map Prod.fst := by
  rw [map_fst_unitBodies, map_fst_unitBodies, h.keys_bodies_eq]
  refine List.filter_congr fun t ht => ?_
  obtain ⟨c', hc'⟩ : ∃ c', p'.body? t = some c' := by
    have hmem := Std.ExtTreeMap.mem_keys.mp ht
    exact Option.isSome_iff_exists.mp (Std.ExtTreeMap.mem_iff_isSome_getElem?.mp hmem)
  obtain ⟨c, hc⟩ := h.symm.exists_body? hc'
  have hiff := h.unit_eq_iff hc hc' hb hb'
  rw [hc, hc', Option.any_some, Option.any_some, Bool.eq_iff_iff, beq_iff_eq, beq_iff_eq, hiff]

theorem exists_mem_unitEdges (h : Reordered p p') {e : Edge} {unit : Nat}
    (he : e ∈ p.unitEdges unit) : ∃ unit', e ∈ p'.unitEdges unit' := by
  obtain ⟨u, b, hu, hok, hb, rfl, -⟩ := of_mem_unitEdges he
  obtain ⟨b', hb'⟩ := h.exists_body? hb
  have hu' : p'.units[b'.source.ref.unit]? = some u := by rw [← h.unit_eq _ b b' hb hb', hu]
  have hbodies := h.map_fst_unitBodies_eq hb hb'
  refine ⟨b'.source.ref.unit, ?_⟩
  simpa only [unitEdges, hu, hu', hbodies, h.bodyEdges_eq] using he

theorem callEdges_eq (h : Reordered p p') : p.callEdges = p'.callEdges := by
  refine p.inv_callEdges.eq_of_mem_edges_iff p'.inv_callEdges fun e => ?_
  rw [mem_edges_callEdges, mem_edges_callEdges]
  constructor
  · rintro ⟨unit, he⟩
    exact h.exists_mem_unitEdges he
  · rintro ⟨unit, he⟩
    exact h.symm.exists_mem_unitEdges he

theorem roots_eq (h : Reordered p p') (callbacks : Callbacks) (withMain : Bool) :
    p.roots callbacks withMain = p'.roots callbacks withMain := by
  rw [← roots_anywhere, h.anywhere_eq, roots_anywhere]

theorem sourceTypeCount_eq (h : Reordered p p') : p.sourceTypeCount = p'.sourceTypeCount := by
  rw [← sourceTypeCount_anywhere, h.anywhere_eq, sourceTypeCount_anywhere]

theorem bodyCount_eq (h : Reordered p p') : p.bodyCount = p'.bodyCount := by
  rw [← bodyCount_anywhere, h.anywhere_eq, bodyCount_anywhere]

end Reordered

variable {units units' : List CompilationUnit} {library : Library} {policy : CyclePolicy}

theorem agree_typeNames (nodes : List TypeNode)
    (h : ∀ name, name ∈ Declarations.ofUnits units ↔ name ∈ Declarations.ofUnits units') :
    (typeNames nodes units).Agree (typeNames nodes units') := by
  refine TypeNames.agree_ofList fun name => ?_
  rw [List.mem_append, List.mem_append, ← Declarations.mem_ofUnits, ← Declarations.mem_ofUnits, h]

theorem typeNodes_eq_of_agree {names other : TypeNames} (h : names.Agree other)
    (nodes : List TypeNode) (decls : Declarations) :
    typeNodes nodes decls names = typeNodes nodes decls other := by
  have hnode (source : SourceType) (isInterface : String → Bool) :
      source.node decls names isInterface = source.node decls other isInterface := by
    have hbind : source.scope.bind names (some source.decl.name) =
        source.scope.bind other (some source.decl.name) := by
      funext vars t
      exact UnitScope.bind_eq source.scope _ h vars t
    unfold SourceType.node
    dsimp only
    rw [hbind]
  unfold typeNodes
  simp only [hnode]

/-- What is built depends on the declarations, not on where they stand. -/
theorem map_anywhere_build_eq (library : Library) (policy : CyclePolicy)
    (hdecls : (Declarations.ofUnits units).anywhere = (Declarations.ofUnits units').anywhere) :
    (build units library policy).map anywhere = (build units' library policy).map anywhere := by
  have hnames (nodes : List TypeNode) :
      (typeNames nodes units).Agree (typeNames nodes units') := by
    refine agree_typeNames nodes fun name => ?_
    have hmem := congrArg (name ∈ ·) hdecls
    simpa [Declarations.anywhere, Std.ExtTreeMap.mem_map] using hmem
  have hnodes (nodes : List TypeNode) :
      typeNodes nodes (Declarations.ofUnits units) (typeNames nodes units) =
        typeNodes nodes (Declarations.ofUnits units') (typeNames nodes units') := by
    rw [typeNodes_eq_of_agree (hnames nodes), ← Declarations.typeNodes_anywhere, hdecls,
      Declarations.typeNodes_anywhere]
  have hbodies (x : TypeIndex) : (BodyTable.build x (Declarations.ofUnits units)).anywhere =
      (BodyTable.build x (Declarations.ofUnits units')).anywhere := by
    rw [← BodyTable.build_anywhere, hdecls, BodyTable.build_anywhere]
  have hbyType (x : TypeIndex) : (BodyTable.build x (Declarations.ofUnits units)).byType =
      (BodyTable.build x (Declarations.ofUnits units')).byType := by
    rw [← BodyTable.byType_anywhere, hbodies, BodyTable.byType_anywhere]
  unfold build
  cases library.nodes with
  | error e => rfl
  | ok nodes =>
    change Except.map anywhere (TypeIndex.build _ policy >>= _) =
      Except.map anywhere (TypeIndex.build _ policy >>= _)
    rw [hnodes]
    generalize TypeIndex.build _ policy = built
    cases built with
    | error e => rfl
    | ok x =>
      change Except.ok _ = Except.ok _
      simp only [anywhere, (hnames nodes).unique_eq, hdecls, hbodies, hbyType]

theorem build_error_or_ok (library : Library) (policy : CyclePolicy)
    (hdecls : (Declarations.ofUnits units).anywhere = (Declarations.ofUnits units').anywhere) :
    (∃ e, build units library policy = .error e ∧ build units' library policy = .error e) ∨
      ∃ p p', build units library policy = .ok p ∧ build units' library policy = .ok p' := by
  have hmap := map_anywhere_build_eq library policy hdecls
  cases hp : build units library policy with
  | error e =>
    cases hp' : build units' library policy with
    | error e' =>
      rw [hp, hp'] at hmap
      cases hmap
      exact .inl ⟨e, rfl, rfl⟩
    | ok p' =>
      rw [hp, hp'] at hmap
      cases hmap
  | ok p =>
    cases hp' : build units' library policy with
    | error e' =>
      rw [hp, hp'] at hmap
      cases hmap
    | ok p' => exact .inr ⟨p, p', rfl, rfl⟩

/-- Programs of the same declarations are alike if each declaration that counts stands in the same
unit of both. -/
theorem reordered_of_unit_eq {p p' : Program}
    (hdecls : (Declarations.ofUnits units).anywhere = (Declarations.ofUnits units').anywhere)
    (hstand : ∀ (name : String) (source source' : SourceType),
      (Declarations.ofUnits units)[name]? = some source →
      (Declarations.ofUnits units')[name]? = some source' →
        units[source.ref.unit]? = units'[source'.ref.unit]?)
    (hp : build units library policy = .ok p) (hp' : build units' library policy = .ok p') :
    Reordered p p' := by
  have hanywhere : p.anywhere = p'.anywhere := by
    have hmap := map_anywhere_build_eq library policy hdecls
    rw [hp, hp'] at hmap
    exact Except.ok.inj hmap
  have hunits : p.units = units.toArray := units_of_build hp
  have hunits' : p'.units = units'.toArray := units_of_build hp'
  refine ⟨hanywhere, ?_, ?_, ?_⟩
  · intro s b b' hb hb'
    have hdecl : b.source.decl = b'.source.decl := by
      have hbody := congrArg (fun p : Program => p.body? s) hanywhere
      simp only [body?_anywhere, hb, hb', Option.map_some, Option.some.injEq] at hbody
      have hdecl := congrArg (fun b : Body => b.source.decl) hbody
      exact hdecl
    have hcounts := (body?_of_build hp hb).1
    have hcounts' := (body?_of_build hp' hb').1
    rw [← hdecl] at hcounts'
    simpa [hunits, hunits'] using hstand _ _ _ hcounts hcounts'
  · intro s t b c hb hc hsame
    refine Declarations.unit_eq_of_getElem?_eq (body?_of_build hp hb).1 (body?_of_build hp hc).1 ?_
    simpa [hunits] using hsame
  · intro s t b c hb hc hsame
    refine Declarations.unit_eq_of_getElem?_eq (body?_of_build hp' hb).1
      (body?_of_build hp' hc).1 ?_
    simpa [hunits'] using hsame

open CompilationUnit (NamesApart)

theorem reordered_of_build {p p' : Program} (hperm : units.Perm units') (hnames : NamesApart units)
    (hp : build units library policy = .ok p) (hp' : build units' library policy = .ok p') :
    Reordered p p' :=
  reordered_of_unit_eq (Declarations.anywhere_ofUnits_eq_of_perm hperm hnames)
    (fun _ _ _ => Declarations.getElem?_unit_eq_of_perm hperm hnames) hp hp'

end Program

namespace Analysis

open CompilationUnit (NamesApart)

/-- The order of the units does not matter. -/
theorem ofUnits_eq_of_perm {units units' : List CompilationUnit} (hperm : units.Perm units')
    (hnames : NamesApart units) (filesSeen : Nat) (library : Library) (options : AnalysisOptions) :
    ofUnits filesSeen units library options = ofUnits filesSeen units' library options := by
  have hmap := Program.map_anywhere_build_eq library options.cyclePolicy
    (Declarations.anywhere_ofUnits_eq_of_perm hperm hnames)
  unfold ofUnits
  cases hp : Program.build units library options.cyclePolicy with
  | error e =>
    cases hp' : Program.build units' library options.cyclePolicy with
    | error e' =>
      rw [hp, hp'] at hmap
      cases hmap
      rfl
    | ok p' =>
      rw [hp, hp'] at hmap
      cases hmap
  | ok p =>
    cases hp' : Program.build units' library options.cyclePolicy with
    | error e' =>
      rw [hp, hp'] at hmap
      cases hmap
    | ok p' =>
      have hreordered := Program.reordered_of_build hperm hnames hp hp'
      change Except.ok _ = Except.ok _
      rw [hreordered.callEdges_eq, hreordered.roots_eq, hreordered.sourceTypeCount_eq,
        hreordered.bodyCount_eq, hperm.length_eq, hperm.countP_eq]

section Swapped

def callingUnit : CompilationUnit :=
  .plain [.plain "A" none [.plain "m" [] "void"
    [.expr (.call (.expr (.new (.named "B") [] none 1)) "f" [] 1)]]]

def calledUnit : CompilationUnit := .plain [.plain "B" none [.plain "f" [] "void" []]]

theorem ofUnits_eq_of_perm_swapped : ∃ outcome,
    ofUnits 2 [callingUnit, calledUnit] {} {} = .ok outcome ∧
      ofUnits 2 [calledUnit, callingUnit] {} {} = .ok outcome ∧ outcome.graph.edgeCount = 2 := by
  have hnames : NamesApart [callingUnit, calledUnit] := by
    intro u hu v hv a ha b hb hab
    simp only [List.mem_cons, List.not_mem_nil, or_false] at hu hv
    rcases hu with rfl | rfl <;> rcases hv with rfl | rfl
    · rfl
    · rw [List.mem_singleton.mp ha, List.mem_singleton.mp hb] at hab
      exact absurd hab (by decide)
    · rw [List.mem_singleton.mp ha, List.mem_singleton.mp hb] at hab
      exact absurd hab (by decide)
    · rfl
  obtain ⟨outcome, houtcome, hedges⟩ := exists_ok_of_any
    (ofUnits 2 [callingUnit, calledUnit] {} {})
    (fun outcome => decide (outcome.graph.edgeCount = 2)) (by decide +kernel)
  have hswap := ofUnits_eq_of_perm (List.Perm.swap calledUnit callingUnit []) hnames 2 {} {}
  exact ⟨outcome, houtcome, hswap ▸ houtcome, of_decide_eq_true hedges⟩

end Swapped

end Analysis

end JavaCallGraph
