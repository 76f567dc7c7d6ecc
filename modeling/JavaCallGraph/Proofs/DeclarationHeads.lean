import JavaCallGraph.Proofs.ProgramBodies

/-!
# Declarations by their heads

The types of a program are read off the heads of its declarations: neither the places of the
declarations nor the statements of their methods matter. When every declaration is replaced by one
with the same head, the type nodes stay as they are, and the same signatures have bodies.
-/

namespace JavaCallGraph

def MethodDecl.head (m : MethodDecl) : MethodDecl := { m with body := m.body.map fun _ => [] }

def TypeDecl.head (d : TypeDecl) : TypeDecl := { d with methods := d.methods.map MethodDecl.head }

/-- The declaration without its place and without the statements of its methods. -/
def SourceType.head (source : SourceType) : SourceType := ⟨default, source.scope, source.decl.head⟩

theorem TypeDecl.method_head (d : TypeDecl) (bind : List String → TypeRef → StaticType)
    (vars : List String) (m : MethodDecl) :
    d.head.method bind vars m.head = d.method bind vars m := by
  have hbody : m.head.body.isNone = m.body.isNone := Option.isNone_map
  unfold method
  rw [hbody]
  rfl

theorem SourceType.node_head (source : SourceType) (decls : Declarations) (names : TypeNames)
    (isInterface : String → Bool) :
    source.head.node decls names isInterface = source.node decls names isInterface := by
  have hmethods (bind : List String → TypeRef → StaticType) (vars : List String) :
      source.decl.head.methods.map (source.decl.head.method bind vars) =
        source.decl.methods.map (source.decl.method bind vars) := by
    rw [TypeDecl.head, List.map_map]
    exact List.map_congr_left fun m _ => source.decl.method_head bind vars m
  unfold node
  dsimp only [head]
  rw [hmethods]
  rfl

/-- The second declaration can take the place of the first one, as far as types go. -/
def SourceType.SameHead (source source' : SourceType) : Prop := source'.head = source.head

namespace SourceType.SameHead

variable {source source' : SourceType} (h : source.SameHead source')
include h

theorem scope_eq : source'.scope = source.scope := (congrArg scope h :)

theorem decl_head_eq : source'.decl.head = source.decl.head := (congrArg decl h :)

theorem name_eq : source'.decl.name = source.decl.name := (congrArg TypeDecl.name h.decl_head_eq :)

theorem kind_eq : source'.decl.kind = source.decl.kind := (congrArg TypeDecl.kind h.decl_head_eq :)

theorem typeParams_eq : source'.decl.typeParams = source.decl.typeParams :=
  (congrArg TypeDecl.typeParams h.decl_head_eq :)

theorem fields_eq : source'.decl.fields = source.decl.fields :=
  (congrArg TypeDecl.fields h.decl_head_eq :)

theorem initializers_eq : source'.decl.initializers = source.decl.initializers :=
  (congrArg TypeDecl.initializers h.decl_head_eq :)

theorem hasStaticInit_eq : source'.decl.hasStaticInit = source.decl.hasStaticInit :=
  (congrArg TypeDecl.hasStaticInit h.decl_head_eq :)

theorem map_isSome_body_eq :
    source'.decl.methods.map (·.body.isSome) = source.decl.methods.map (·.body.isSome) := by
  have hmap (d : TypeDecl) :
      d.head.methods.map (·.body.isSome) = d.methods.map (·.body.isSome) := by
    rw [TypeDecl.head, List.map_map]
    exact List.map_congr_left fun m _ => Option.isSome_map
  rw [← hmap, ← hmap source.decl, h.decl_head_eq]

end SourceType.SameHead

def Body.mapSource (g : SourceType → SourceType) (b : Body) : Body :=
  { b with source := g b.source }

variable {g : SourceType → SourceType}

/-! ### Type nodes -/

namespace Declarations

def mapSources (g : SourceType → SourceType) (decls : Declarations) : Declarations :=
  decls.map fun _ source => g source

variable (decls : Declarations)

theorem getElem?_mapSources (name : String) :
    (decls.mapSources g)[name]? = decls[name]?.map g :=
  Std.ExtTreeMap.getElem?_map

theorem ofUnits_eq_mapSources {units units' : List CompilationUnit}
    (hname : ∀ source, (g source).decl.name = source.decl.name)
    (hlisted : listed units' = (listed units).map g) :
    ofUnits units' = (ofUnits units).mapSources g := by
  apply Std.ExtTreeMap.ext_getElem?
  intro name
  rw [getElem?_mapSources, getElem?_ofUnits, getElem?_ofUnits, hlisted, List.find?_map]
  congr 2
  funext source
  simp [hname]

variable (hg : ∀ source : SourceType, source.SameHead (g source))
include hg

theorem typeVars_mapSources (type : String) :
    (decls.mapSources g).typeVars type = decls.typeVars type := by
  unfold typeVars
  congr 1
  funext owner
  rw [getElem?_mapSources]
  cases decls[owner]? with
  | none => rfl
  | some source => exact congrArg (List.map TypeParamDecl.name) (hg source).typeParams_eq

theorem node_mapSources (source : SourceType) (names : TypeNames) (isInterface : String → Bool) :
    (g source).node (decls.mapSources g) names isInterface =
      source.node decls names isInterface := by
  rw [← source.node_head, ← (g source).node_head, hg source]
  unfold SourceType.node
  dsimp only
  rw [decls.typeVars_mapSources hg]

theorem typeNodes_mapSources (library : List TypeNode) (names : TypeNames) :
    Program.typeNodes library (decls.mapSources g) names =
      Program.typeNodes library decls names := by
  have hkind (name : String) : (decls.mapSources g)[name]?.map (·.decl.kind) =
      decls[name]?.map (·.decl.kind) := by
    rw [getElem?_mapSources, Option.map_map]
    cases decls[name]? with
    | none => rfl
    | some source => exact congrArg some (hg source).kind_eq
  have hvalues : (decls.mapSources g).values = decls.values.map g := by
    rw [values_eq_map_toList, values_eq_map_toList, mapSources, Std.ExtTreeMap.toList_map,
      List.map_map, List.map_map]
    rfl
  unfold Program.typeNodes
  simp only [hkind, hvalues, List.map_map]
  congr 2
  funext source
  exact decls.node_mapSources hg source names _

end Declarations

/-! ### Bodies -/

namespace BodyTable

def mapSources (g : SourceType → SourceType) (bodies : BodyTable) : BodyTable :=
  bodies.map fun _ b => b.mapSource g

variable (bodies : BodyTable) (x : TypeIndex)

theorem getElem?_mapSources (s : Signature) :
    (bodies.mapSources g)[s]? = bodies[s]?.map (Body.mapSource g) :=
  Std.ExtTreeMap.getElem?_map

theorem mapSources_insert (s : Signature) (b : Body) :
    mapSources g (bodies.insert s b) = (bodies.mapSources g).insert s (b.mapSource g) := by
  apply Std.ExtTreeMap.ext_getElem?
  intro t
  rw [getElem?_mapSources, Std.ExtTreeMap.getElem?_insert, Std.ExtTreeMap.getElem?_insert,
    getElem?_mapSources]
  split
  · rfl
  · rfl

theorem byType_mapSources : (bodies.mapSources g).byType = bodies.byType := by
  unfold byType
  rw [Std.ExtTreeMap.foldl_eq_foldl_toList, Std.ExtTreeMap.foldl_eq_foldl_toList, mapSources,
    Std.ExtTreeMap.toList_map, List.foldl_map]

/-- Two lists of methods of which the same ones have bodies make tables that correspond. -/
theorem mapSources_foldl_zipIdx {step step' : BodyTable → (MethodDecl × Method) × Nat → BodyTable}
    (hstep : ∀ bodies m m' method i, m'.body.isSome = m.body.isSome →
      mapSources g (step bodies ((m, method), i)) = step' (mapSources g bodies) ((m', method), i))
    {decls decls' : List MethodDecl}
    (h : decls'.map (·.body.isSome) = decls.map (·.body.isSome)) (methods : List Method)
    (start : Nat) :
    mapSources g (((decls.zip methods).zipIdx start).foldl step bodies) =
      ((decls'.zip methods).zipIdx start).foldl step' (mapSources g bodies) := by
  induction decls generalizing decls' methods start bodies with
  | nil =>
    obtain rfl : decls' = [] := by simpa using h
    rfl
  | cons m decls ih =>
    obtain ⟨m', decls', rfl, hm, hdecls⟩ := List.map_eq_cons_iff.mp h
    cases methods with
    | nil => rfl
    | cons method methods =>
      simp only [List.zip_cons_cons, List.zipIdx_cons, List.foldl_cons]
      rw [ih _ hdecls, hstep bodies m m' method start hm]

variable (hg : ∀ source : SourceType, source.SameHead (g source))
include hg

theorem mapSources_addType (source : SourceType) :
    (bodies.addType x source).mapSources g = (bodies.mapSources g).addType x (g source) := by
  have hbodies := (hg source).map_isSome_body_eq
  unfold addType
  rw [(hg source).name_eq, (hg source).hasStaticInit_eq]
  extract_lets name
  cases x.hierarchy.get? name with
  | none => rfl
  | some node =>
    dsimp -zeta only
    extract_lets declared constructed declared' constructed'
    have hdeclared : declared.mapSources g = declared' := by
      refine mapSources_foldl_zipIdx bodies (fun table m m' method i hm => ?_) hbodies _ 0
      simp only [hm]
      split
      · exact mapSources_insert _ _ _
      · rfl
    have hconstructed : constructed.mapSources g = constructed' := by
      unfold constructed constructed'
      rw [← hdeclared]
      split
      · exact mapSources_insert _ _ _
      · rfl
    rw [← hconstructed]
    split
    · exact mapSources_insert _ _ _
    · rfl

theorem build_mapSources (decls : Declarations) :
    build x (decls.mapSources g) = (build x decls).mapSources g := by
  have hfold (entries : List (String × SourceType)) (bodies : BodyTable) :
      (entries.map fun entry => (entry.1, g entry.2)).foldl
        (fun bodies entry => bodies.addType x entry.2) (bodies.mapSources g) =
      (entries.foldl (fun bodies entry => bodies.addType x entry.2) bodies).mapSources g := by
    induction entries generalizing bodies with
    | nil => rfl
    | cons entry entries ih =>
      rw [List.map_cons, List.foldl_cons, List.foldl_cons, ← ih, mapSources_addType _ _ hg]
  rw [build, build, Std.ExtTreeMap.foldl_eq_foldl_toList, Std.ExtTreeMap.foldl_eq_foldl_toList,
    Declarations.mapSources, Std.ExtTreeMap.toList_map, ← hfold]
  congr 1

end BodyTable

end JavaCallGraph
