import JavaCallGraph.Proofs.InheritedMethods
import JavaCallGraph.Proofs.RecordedMembers

/-!
# Type nodes of source types

Of the declarations of one name the first one counts. Its type node goes before a library's node of
the name, and building the hierarchy leaves the methods of the node as they are: they are the
declared methods, each bound in the program, and after them those that every enum has. What the
catalog lists as the constructors of the type follows from them.
-/

namespace JavaCallGraph

/-! ### The declarations that count -/

namespace Declarations

variable {units : List CompilationUnit} {sources : List SourceType} {source : SourceType}

def firsts : List SourceType → List SourceType
  | [] => []
  | source :: rest => source :: (firsts rest).filter (·.decl.name ≠ source.decl.name)

theorem mem_firsts :
    source ∈ firsts sources ↔ sources.find? (·.decl.name = source.decl.name) = some source := by
  induction sources with
  | nil => simp [firsts]
  | cons first rest ih =>
    rw [firsts, List.mem_cons, List.mem_filter, ih, List.find?_cons]
    by_cases hname : first.decl.name = source.decl.name
    · simp [hname, eq_comm]
    · have hne : source ≠ first := fun h => hname (congrArg (·.decl.name) h.symm)
      simp [hname, hne, eq_comm (a := source.decl.name)]

theorem pairwise_firsts (sources : List SourceType) :
    (firsts sources).Pairwise (·.decl.name ≠ ·.decl.name) := by
  induction sources with
  | nil => exact .nil
  | cons first rest ih =>
    refine List.pairwise_cons.mpr ⟨fun source hsource => ?_, ih.filter _⟩
    exact Ne.symm (of_decide_eq_true (List.mem_filter.mp hsource).2)

/-- The declarations of the units that count for their names. -/
def counting (units : List CompilationUnit) : List SourceType := firsts (listed units)

theorem getElem?_ofUnits_eq_some_iff {name : String} :
    (ofUnits units)[name]? = some source ↔ source ∈ counting units ∧ source.decl.name = name := by
  rw [counting, mem_firsts]
  constructor
  · intro h
    obtain ⟨-, rfl⟩ := of_getElem?_ofUnits h
    exact ⟨getElem?_ofUnits units _ ▸ h, rfl⟩
  · rintro ⟨h, rfl⟩
    rw [getElem?_ofUnits, h]

theorem mem_values_ofUnits : source ∈ (ofUnits units).values ↔ source ∈ counting units := by
  rw [values_eq_map_toList, List.mem_map]
  constructor
  · rintro ⟨⟨name, _⟩, hentry, rfl⟩
    have hname := Std.ExtTreeMap.mem_toList_iff_getElem?_eq_some.mp hentry
    exact (getElem?_ofUnits_eq_some_iff.mp hname).1
  · intro hsource
    refine ⟨(source.decl.name, source), ?_, rfl⟩
    rw [Std.ExtTreeMap.mem_toList_iff_getElem?_eq_some]
    exact getElem?_ofUnits_eq_some_iff.mpr ⟨hsource, rfl⟩

end Declarations

/-! ### Their nodes -/

/-- Building keeps everything but the supertypes of the node that counts for a name. -/
theorem Hierarchy.get?_of_last? {nodes : List TypeNode} {policy : CyclePolicy} {h : Hierarchy}
    (hb : build nodes policy = .ok h) {name : String} {given : TypeNode}
    (hlast : TypeNode.last? nodes name = some given) :
    ∃ node, h.get? name = some node ∧ node.identity = given.identity ∧
      node.methods = given.methods := by
  have hcut : h.get? name =
      (TypeTable.cut (.ofNodes nodes) (TypeTable.ofNodes nodes).cyclic)[name]? := by
    rw [build_eq_ok hb]
    rfl
  rw [hcut, TypeTable.cut, Std.ExtTreeMap.getElem?_map, TypeTable.getElem?_ofNodes_of_last? hlast]
  refine ⟨_, rfl, ?_⟩
  split
  · exact ⟨rfl, rfl⟩
  · exact ⟨rfl, rfl⟩

namespace TypeDecl

variable (d : TypeDecl) (bind : List String → TypeRef → StaticType) (vars : List String)
  (m : MethodDecl)

def hasDefaultConstructor : Bool :=
  d.kind != .enum && d.kind != .interface && d.methods.all (·.kind != .constructor)

theorem isConstructor_method : ((d.method bind vars m).kind == .constructor) =
    (m.kind == .constructor) := by
  unfold method
  cases hkind : m.kind with
  | constructor => rfl
  | method =>
    dsimp only
    split
    · rfl
    · split
      · rfl
      · rfl

theorem signature_method_constructor (h : m.kind = .constructor) :
    (d.method bind vars m).signature =
      .constructor d.name (d.method bind vars m).signature.params := by
  simp only [method, h, Signature.constructor]

theorem name_signature_method (h : m.kind = .method) :
    (d.method bind vars m).signature.name = m.name := by
  simp only [method, h]

end TypeDecl

/-- A class node lists its default constructor exactly if there is no declared one. -/
theorem TypeNode.find?_constructors {node : TypeNode} {d : TypeDecl}
    {bind : List String → TypeRef → StaticType} {vars : List String}
    (hnode : node.identity = (d.name, d.kind, .source))
    (hmethods : node.methods = d.methods.map (d.method bind vars) ++
      if d.kind == .enum then Method.ofEnum d.name else []) :
    node.constructors.find? (·.isSynthetic) =
      if d.hasDefaultConstructor then some (.defaultConstructor d.name) else none := by
  simp only [identity, Prod.mk.injEq] at hnode
  obtain ⟨hname, hkind, horigin⟩ := hnode
  have hdeclared : node.declaredConstructors =
      (d.methods.filter (·.kind == .constructor)).map (d.method bind vars) := by
    have henum : (if d.kind == .enum then Method.ofEnum d.name else []).filter
        (·.kind == .constructor) = [] := by
      split
      · rfl
      · rfl
    rw [declaredConstructors, hmethods, List.filter_append, henum, List.append_nil, List.filter_map]
    congr 2
    funext m
    exact d.isConstructor_method bind vars m
  have hnone : node.declaredConstructors.find? (·.isSynthetic) = none := by
    rw [hdeclared, List.find?_eq_none]
    intro m hm
    obtain ⟨m, -, rfl⟩ := List.mem_map.mp hm
    exact Bool.false_ne_true
  have hempty : node.declaredConstructors.isEmpty = d.methods.all (·.kind != .constructor) := by
    rw [hdeclared, Bool.eq_iff_iff]
    simp
  unfold constructors
  simp only [hname, hkind, horigin, hempty, TypeDecl.hasDefaultConstructor]
  by_cases henum : d.kind = .enum
  · simp [henum]
  · by_cases hinterface : d.kind = .interface
    · simpa [hinterface] using hnone
    · by_cases hall : d.methods.all (·.kind != .constructor)
      · simp [henum, hinterface, hall, Method.defaultConstructor]
      · simpa [henum, hinterface, hall] using hnone

namespace Program

variable {units : List CompilationUnit} {library : Library} {policy : CyclePolicy} {p : Program}
  {source : SourceType}

def bound (p : Program) (source : SourceType) (m : MethodDecl) : Method :=
  source.decl.method (p.bind source.scope source.decl.name) (p.typeVars source.decl.name) m

/-- A source type goes before a library type. -/
theorem last?_typeNodes (library : List TypeNode) (names : TypeNames)
    (hsource : source ∈ Declarations.counting units) :
    ∃ isInterface, TypeNode.last? (typeNodes library (.ofUnits units) names) source.decl.name =
      some (source.node (.ofUnits units) names isInterface) := by
  unfold typeNodes
  extract_lets libraryKinds kindOf
  let nodeOf (source : SourceType) : TypeNode :=
    source.node (.ofUnits units) names fun name => kindOf name == some .interface
  refine ⟨fun name => kindOf name == some .interface, ?_⟩
  obtain ⟨node, hnode⟩ : ∃ node, ((Declarations.ofUnits units).values.map nodeOf).reverse.find?
      (·.name == source.decl.name) = some node := by
    rw [← Option.isSome_iff_exists, List.find?_isSome]
    refine ⟨nodeOf source, ?_, beq_iff_eq.mpr (source.name_node _ _ _)⟩
    exact List.mem_reverse.mpr (List.mem_map_of_mem (Declarations.mem_values_ofUnits.mpr hsource))
  rw [TypeNode.last?, List.reverse_append, List.find?_append]
  rw [hnode, Option.some_or]
  obtain ⟨other, hother, rfl⟩ :=
    List.mem_map.mp (List.mem_reverse.mp (List.mem_of_find?_eq_some hnode))
  -- Only one declaration that counts bears the name.
  have hname : other.decl.name = source.decl.name := by
    have hfound : (nodeOf other).name = source.decl.name := by simpa using List.find?_some hnode
    rw [← hfound]
    exact (other.name_node _ _ _).symm
  have hsame := Declarations.getElem?_ofUnits_eq_some_iff.mpr
    ⟨Declarations.mem_values_ofUnits.mp hother, hname⟩
  rw [Declarations.getElem?_ofUnits_eq_some_iff.mpr ⟨hsource, rfl⟩] at hsame
  rw [Option.some.inj hsame]

theorem get?_of_mem_counting (h : build units library policy = .ok p)
    (hsource : source ∈ Declarations.counting units) :
    ∃ node, p.hierarchy.get? source.decl.name = some node ∧
      node.identity = (source.decl.name, source.decl.kind, .source) ∧
      node.methods = source.decl.methods.map (p.bound source) ++
        if source.decl.kind == .enum then Method.ofEnum source.decl.name else [] := by
  obtain ⟨nodes, -, index, hindex, rfl⟩ := build_eq_ok_iff.mp h
  unfold TypeIndex.build at hindex
  split at hindex
  · next hierarchy hbuild =>
    cases hindex
    obtain ⟨isInterface, hlast⟩ := last?_typeNodes nodes _ hsource
    obtain ⟨node, hnode, hidentity, hmethods⟩ := Hierarchy.get?_of_last? hbuild hlast
    exact ⟨node, hnode, hidentity.trans (source.identity_node _ _ _), hmethods⟩
  · cases hindex

theorem find?_constructors (h : build units library policy = .ok p)
    (hsource : source ∈ Declarations.counting units) :
    (p.catalog.constructors source.decl.name).find? (·.isSynthetic) =
      if source.decl.hasDefaultConstructor then some (.defaultConstructor source.decl.name)
      else none := by
  obtain ⟨nodes, hbuild, -⟩ := build_hierarchy_of_build h
  obtain ⟨node, hnode, hidentity, hmethods⟩ := get?_of_mem_counting h hsource
  rw [Catalog.constructors, catalog_of_build h, Catalog.membersOf_eq hbuild hnode]
  exact TypeNode.find?_constructors hidentity hmethods

end Program

end JavaCallGraph
