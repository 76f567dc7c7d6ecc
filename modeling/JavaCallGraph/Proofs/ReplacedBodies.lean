import JavaCallGraph.Proofs.SharedTypes
import JavaCallGraph.Proofs.Unrolled

/-!
# Replacing the body of a method

The statements of one method can be exchanged for others. The program that results can be built if
the first one can, and has the same types. All bodies but that one make the same walks as before.
What can be unrolled without that body is therefore the same in both programs.
-/

namespace JavaCallGraph

/-! ### Units -/

def MethodDecl.withStatements (m : MethodDecl) (body : List Stmt) : MethodDecl :=
  { m with body := m.body.map fun _ => body }

def TypeDecl.withStatements (d : TypeDecl) (j : Nat) (body : List Stmt) : TypeDecl :=
  { d with methods := d.methods.modify j (·.withStatements body) }

/-- The units with other statements in one method, the `j`-th one of the declaration at `ref`. -/
def CompilationUnit.withStatements (units : List CompilationUnit) (ref : DeclRef) (j : Nat)
    (body : List Stmt) : List CompilationUnit :=
  units.modify ref.unit fun u =>
    { u with types := u.types.modify ref.index (·.withStatements j body) }

def SourceType.withStatements (ref : DeclRef) (j : Nat) (body : List Stmt) (source : SourceType) :
    SourceType :=
  if source.ref = ref then { source with decl := source.decl.withStatements j body } else source

theorem zipIdx_modify {α : Type} (f : α → α) (l : List α) (n : Nat) :
    (l.modify n f).zipIdx =
      l.zipIdx.map fun entry => (if entry.2 = n then f entry.1 else entry.1, entry.2) := by
  apply List.ext_getElem?
  intro i
  rw [List.getElem?_zipIdx, List.getElem?_modify, List.getElem?_map, List.getElem?_zipIdx]
  cases l[i]? with
  | none => rfl
  | some a => simp [eq_comm]

section Edit

variable (ref : DeclRef) (j : Nat) (body : List Stmt)

theorem TypeDecl.head_withStatements (d : TypeDecl) : (d.withStatements j body).head = d.head := by
  have hmethods : (d.methods.modify j (·.withStatements body)).map MethodDecl.head =
      d.methods.map MethodDecl.head := by
    apply List.ext_getElem?
    intro i
    rw [List.getElem?_map, List.getElem?_map, List.getElem?_modify]
    cases d.methods[i]? with
    | none => rfl
    | some m =>
      by_cases hi : j = i
      · simp [hi, MethodDecl.head, MethodDecl.withStatements, Function.comp_def]
      · simp [hi]
  simp only [head, withStatements, hmethods]

theorem SourceType.sameHead_withStatements (source : SourceType) :
    source.SameHead (source.withStatements ref j body) := by
  unfold SameHead withStatements
  split
  · simp only [head, source.decl.head_withStatements]
  · rfl

theorem Declarations.listed_withStatements (units : List CompilationUnit) :
    listed (CompilationUnit.withStatements units ref j body) =
      (listed units).map (SourceType.withStatements ref j body) := by
  unfold listed CompilationUnit.withStatements
  rw [zipIdx_modify, List.flatMap_map, List.map_flatMap]
  congr 1
  funext entry
  obtain ⟨u, k⟩ := entry
  dsimp only
  by_cases hk : k = ref.unit
  · rw [if_pos hk]
    dsimp only
    rw [zipIdx_modify, List.map_map, List.map_map]
    apply List.map_congr_left
    rintro ⟨d, i⟩ -
    by_cases hi : i = ref.index
    · simp [SourceType.withStatements, hk, hi, UnitScope.ofUnit]
    · have href : (⟨k, i⟩ : DeclRef) ≠ ref := fun h => hi (congrArg DeclRef.index h)
      simp [SourceType.withStatements, href, hi, UnitScope.ofUnit]
  · rw [if_neg hk, List.map_map]
    apply List.map_congr_left
    rintro ⟨d, i⟩ -
    have href : (⟨k, i⟩ : DeclRef) ≠ ref := fun h => hk (congrArg DeclRef.unit h)
    simp [SourceType.withStatements, href]

end Edit

/-! ### The places of bodies -/

namespace BodyTable

variable {x : TypeIndex} {bodies : BodyTable}

def ByPlace (x : TypeIndex) (bodies : BodyTable) : Prop :=
  ∀ (s : Signature) (b : Body), bodies[s]? = some b → ∀ j, b.kind = .declared j →
    ∃ node method, x.hierarchy.get? b.source.decl.name = some node ∧
      node.methods[j]? = some method ∧ method.signature = s

theorem ByPlace.addType (h : bodies.ByPlace x) (source : SourceType) :
    (bodies.addType x source).ByPlace x := by
  refine forall_getElem?_addType h (fun node method i hnode hmethod j hj => ?_) (by simp) (by simp)
  cases hj
  exact ⟨node, method, hnode, hmethod, rfl⟩

theorem byPlace_build (x : TypeIndex) (decls : Declarations) : (build x decls).ByPlace x := by
  rw [build, Std.ExtTreeMap.foldl_eq_foldl_toList]
  exact List.foldlRecOn _ _ (fun s b h => by simp at h) fun _ hbodies _ _ => hbodies.addType _

end BodyTable

/-! ### Programs -/

namespace Program

/-- The statements `body` of an ordinary method, the `j`-th one of the declaration at `ref`,
implement the signature. -/
def MethodBody (p : Program) (s : Signature) (ref : DeclRef) (j : Nat) (body : List Stmt) : Prop :=
  ∃ source m, p.body? s = some ⟨source, .declared j⟩ ∧ source.ref = ref ∧
    source.decl.methods[j]? = some m ∧ m.kind = .method ∧ m.body = some body

variable {units : List CompilationUnit} {library : Library} {policy : CyclePolicy} {p : Program}
  {s t : Signature} {ref : DeclRef} {j : Nat} {body : List Stmt}

theorem exists_build_withStatements (hp : build units library policy = .ok p) (ref : DeclRef)
    (j : Nat) (body : List Stmt) :
    ∃ q, build (CompilationUnit.withStatements units ref j body) library policy = .ok q ∧
      p.SharesTypes q ∧
      q.bodies = p.bodies.mapSources (SourceType.withStatements ref j body) := by
  obtain ⟨nodes, hnodes, index, hindex, rfl⟩ := build_eq_ok_iff.mp hp
  have hhead := SourceType.sameHead_withStatements ref j body
  have hdecls := Declarations.ofUnits_eq_mapSources (fun source => (hhead source).name_eq)
    (Declarations.listed_withStatements ref j body units)
  have hnames : typeNames nodes (CompilationUnit.withStatements units ref j body) =
      typeNames nodes units := by
    rw [typeNames, Declarations.listed_withStatements, List.map_map]
    simp only [Function.comp_def, (hhead _).name_eq]
    rfl
  refine ⟨_, build_eq_ok_iff.mpr ⟨nodes, hnodes, index, ?_, rfl⟩, ?_, ?_⟩
  · rw [hnames, hdecls, Declarations.typeNodes_mapSources _ hhead]
    exact hindex
  · refine ⟨?_, rfl, fun type => ?_, fun type => ?_, ?_⟩
    · dsimp only
      rw [hnames]
      exact ⟨rfl, rfl⟩
    · dsimp only [source?]
      rw [hdecls, Declarations.getElem?_mapSources, Option.isSome_map]
    · dsimp only [typeVars]
      rw [hdecls, Declarations.typeVars_mapSources _ hhead]
    · dsimp only
      rw [hdecls, BodyTable.build_mapSources _ hhead, BodyTable.byType_mapSources]
  · dsimp only
    rw [hdecls, BodyTable.build_mapSources _ hhead]

/-- No two signatures are implemented by one declared method. -/
theorem eq_of_body?_eq_declared (hp : build units library policy = .ok p)
    {source source' : SourceType} (hs : p.body? s = some ⟨source, .declared j⟩)
    (ht : p.body? t = some ⟨source', .declared j⟩) (href : source'.ref = source.ref) : t = s := by
  have hlisted {u : Signature} {b : Body} (hb : p.body? u = some b) :
      b.source ∈ Declarations.listed units :=
    (Declarations.of_getElem?_ofUnits (body?_of_build hp hb).1).1
  obtain ⟨u, hu, hdecl, -⟩ := Declarations.mem_listed.mp (hlisted hs)
  obtain ⟨u', hu', hdecl', -⟩ := Declarations.mem_listed.mp (hlisted ht)
  have hsame : source'.decl = source.decl := by
    rw [href] at hu' hdecl'
    cases hu.symm.trans hu'
    exact Option.some.inj (hdecl'.symm.trans hdecl)
  obtain ⟨nodes, -, index, -, rfl⟩ := build_eq_ok_iff.mp hp
  obtain ⟨node, method, hnode, hmethod, rfl⟩ := BodyTable.byPlace_build index _ s _ hs j rfl
  obtain ⟨node', method', hnode', hmethod', rfl⟩ := BodyTable.byPlace_build index _ t _ ht j rfl
  dsimp only at hnode hnode'
  rw [hsame] at hnode'
  cases hnode.symm.trans hnode'
  cases hmethod.symm.trans hmethod'
  rfl

def methodContext (p : Program) (source : SourceType) (m : MethodDecl) : BodyContext :=
  { program := p, scope := source.scope, current := source.decl.name
    isStatic := m.modifiers.isStatic
    vars := p.typeVars source.decl.name ++ m.typeParams.map (·.name) }

theorem passOf_method {source : SourceType} {m : MethodDecl}
    (hm : source.decl.methods[j]? = some m) (hkind : m.kind = .method)
    (hbody : m.body = some body) :
    Body.passOf p ⟨source, .declared j⟩ =
      some (methodContext p source m, m.params, (methodContext p source m).stmts body) := by
  simp [Body.passOf, methodContext, hm, hbody, hkind, pure]

section Replaced

variable {q : Program} (hshares : p.SharesTypes q)
  (hbodies : q.bodies = p.bodies.mapSources (SourceType.withStatements ref j body))
include hbodies

theorem body?_replaced (t : Signature) :
    q.body? t = (p.body? t).map (Body.mapSource (SourceType.withStatements ref j body)) := by
  rw [body?, hbodies]
  exact BodyTable.getElem?_mapSources _ _

/-- The method at the place has the new statements. -/
theorem exists_method_replaced {source : SourceType} {m : MethodDecl}
    (hs : p.body? s = some ⟨source, .declared j⟩) (href : source.ref = ref)
    (hm : source.decl.methods[j]? = some m) :
    ∃ source', source.SameHead source' ∧ q.body? s = some ⟨source', .declared j⟩ ∧
      source'.ref = ref ∧ source'.decl.methods[j]? = some (m.withStatements body) := by
  refine ⟨source.withStatements ref j body, source.sameHead_withStatements ref j body, ?_, ?_, ?_⟩
  · rw [body?_replaced hbodies, hs]
    rfl
  · rw [SourceType.withStatements, if_pos href]
    exact href
  · rw [SourceType.withStatements, if_pos href]
    dsimp only [TypeDecl.withStatements]
    rw [List.getElem?_modify, hm]
    simp

theorem MethodBody.replaced {old : List Stmt} (h : p.MethodBody s ref j old) :
    q.MethodBody s ref j body := by
  obtain ⟨source, m, hs, href, hm, hkind, hold⟩ := h
  obtain ⟨source', -, hs', href', hm'⟩ := exists_method_replaced hbodies hs href hm
  exact ⟨source', m.withStatements body, hs', href', hm', hkind,
    by rw [MethodDecl.withStatements, hold]; rfl⟩

include hshares

/-- The other bodies make the same walks. -/
theorem summarize_replaced (hp : build units library policy = .ok p) {old : List Stmt}
    (h : p.MethodBody s ref j old) (hne : t ≠ s) : Body.summarize q t = Body.summarize p t := by
  obtain ⟨source, m, hs, href, -, -, -⟩ := h
  refine Body.summarize_eq_of_passOf hshares ?_
  rw [body?_replaced hbodies]
  cases ht : p.body? t with
  | none => rfl
  | some b =>
    change Body.passOf q (b.mapSource (SourceType.withStatements ref j body)) = _
    refine Body.passOf_within hshares rfl (b.source.sameHead_withStatements ref j body)
      fun i hi => ?_
    obtain ⟨other, kind⟩ := b
    cases hi
    change (other.withStatements ref j body).decl.methods[i]? = _
    unfold SourceType.withStatements
    split
    · next hother =>
      have hij : ¬ j = i := by
        rintro rfl
        exact hne (eq_of_body?_eq_declared hp hs ht (hother.trans href.symm))
      dsimp only [TypeDecl.withStatements]
      rw [List.getElem?_modify]
      simp [hij]
    · rfl

/-- Both programs walk the statements that they have in the same context. -/
theorem MethodBody.exists_passOf {old : List Stmt} (h : p.MethodBody s ref j old) :
    ∃ ctx params, ctx.program = p ∧
      (p.body? s >>= Body.passOf p) = some (ctx, params, ctx.stmts old) ∧
      (q.body? s >>= Body.passOf q) = some (ctx.within q, params, ctx.stmts body) := by
  obtain ⟨source, m, hs, href, hm, hkind, hold⟩ := h
  obtain ⟨source', hhead, hs', -, hm'⟩ := exists_method_replaced hbodies hs href hm
  have hbody' : (m.withStatements body).body = some body := by
    rw [MethodDecl.withStatements, hold]
    rfl
  refine ⟨methodContext p source m, m.params, rfl, ?_, ?_⟩
  · rw [hs]
    exact passOf_method hm hkind hold
  · have hcontext : methodContext q source' (m.withStatements body) =
        (methodContext p source m).within q := by
      unfold methodContext
      rw [hhead.scope_eq, hhead.name_eq, hshares.typeVars_eq]
      rfl
    have hstmts : ((methodContext p source m).within q).stmts body =
        (methodContext p source m).stmts body :=
      BodyContext.stmts_within (show (methodContext p source m).program.SharesTypes q from hshares)
        body
    rw [hs', ← hstmts, ← hcontext]
    exact passOf_method hm' hkind hbody'

/-! ### Unrolled summaries -/

omit hbodies in
theorem answerFrom_replaced (summary : Signature → Option (Option BodySummary)) :
    q.answerFrom summary = p.answerFrom summary := by
  funext question
  cases question with
  | returnSet m => rfl
  | fieldSet key => simp only [answerFrom, Engine.writesBy, Engine.writers_eq hshares]

/-- As long as the body has no value itself, nothing that has one depends on it. -/
theorem unrolled_extendedBy_replaced (hp : build units library policy = .ok p) {old : List Stmt}
    (h : p.MethodBody s ref j old) {room : Nat}
    (hs : ∀ level ≤ room, p.unrolled level s = none) :
    ExtendedBy (p.unrolled room) (q.unrolled room) := by
  induction room with
  | zero =>
    intro t v hv
    have hsome : (q.body? t).isSome = (p.body? t).isSome := by
      rw [body?_replaced hbodies, Option.isSome_map]
    rw [unrolled, hsome]
    exact hv
  | succ room ih =>
    intro t v hv
    have hne : t ≠ s := by
      rintro rfl
      simp [hs (room + 1) (Nat.le_refl _)] at hv
    rw [unrolled, summarize_replaced hshares hbodies hp h hne, answerFrom_replaced hshares]
    have hless := ih fun level hlevel => hs level (by omega)
    exact hless.answerFrom.script_run _ hv

end Replaced

end Program

end JavaCallGraph
