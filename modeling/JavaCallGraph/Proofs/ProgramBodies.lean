import JavaCallGraph.Program
import JavaCallGraph.Proofs.Attempts
import JavaCallGraph.Proofs.NameSets

/-!
# Where bodies come from

A declaration that counts stands at its place in one of the units, and its type node bears its name.
Every body belongs to such a declaration. Its signature is that of a method or a constructor of the
declared type, or that of the type's static initializer.
-/

namespace JavaCallGraph

namespace Declarations

variable {units : List CompilationUnit} {source : SourceType}

theorem mem_listed : source ∈ listed units ↔ ∃ u, units[source.ref.unit]? = some u ∧
    u.types[source.ref.index]? = some source.decl ∧ source.scope = .ofUnit u := by
  obtain ⟨⟨unit, index⟩, scope, decl⟩ := source
  simp only [listed, List.mem_flatMap, List.mem_map, Prod.exists, SourceType.mk.injEq,
    DeclRef.mk.injEq, List.mk_mem_zipIdx_iff_getElem?]
  constructor
  · rintro ⟨u, _, hu, _, _, hd, ⟨rfl, rfl⟩, rfl, rfl⟩
    exact ⟨u, hu, hd, rfl⟩
  · rintro ⟨u, hu, hd, rfl⟩
    exact ⟨u, unit, hu, decl, index, hd, ⟨rfl, rfl⟩, rfl, rfl⟩

/-- Of several declarations of a name the first one counts. -/
theorem getElem?_ofUnits (units : List CompilationUnit) (name : String) :
    (ofUnits units)[name]? = (listed units).find? (·.decl.name = name) := by
  rw [ofUnits, getElem?_foldl_insertIfNew (fun source : SourceType => source.decl.name)
    fun source => source]
  simp

theorem of_getElem?_ofUnits {name : String} (h : (ofUnits units)[name]? = some source) :
    source ∈ listed units ∧ source.decl.name = name := by
  rw [getElem?_ofUnits] at h
  exact ⟨List.mem_of_find?_eq_some h, by simpa using List.find?_some h⟩

end Declarations

def TypeNode.identity (n : TypeNode) : String × TypeKind × Origin := (n.name, n.kind, n.origin)

theorem TypeNode.identity_addSuper (n : TypeNode) (asInterface : Bool) (type : StaticType) :
    (n.addSuper asInterface type).identity = n.identity := by
  unfold addSuper
  split
  · rfl
  · dsimp only
    split
    · split
      · rfl
      · rfl
    · split
      · rfl
      · rfl

theorem TypeNode.identity_addFirstSuper (n : TypeNode) (isInterface : String → Bool)
    (sup : Option StaticType) : (n.addFirstSuper isInterface sup).identity = n.identity := by
  unfold addFirstSuper
  split
  · split
    · exact n.identity_addSuper true _
    · split
      · exact identity_addSuper _ true _
      · exact n.identity_addSuper false _
    · exact n.identity_addSuper false _
  · split
    · rfl
    · rfl

theorem SourceType.identity_node (source : SourceType) (decls : Declarations) (names : TypeNames)
    (isInterface : String → Bool) :
    (source.node decls names isInterface).identity =
      (source.decl.name, source.decl.kind, .source) := by
  refine List.foldlRecOn (motive := fun (n : TypeNode) =>
    n.identity = (source.decl.name, source.decl.kind, Origin.source)) _ _
    (TypeNode.identity_addFirstSuper _ _ _) fun n hn type _ => ?_
  rw [n.identity_addSuper true type, hn]

theorem SourceType.name_node (source : SourceType) (decls : Declarations) (names : TypeNames)
    (isInterface : String → Bool) :
    (source.node decls names isInterface).name = source.decl.name :=
  congrArg Prod.fst (source.identity_node decls names isInterface)

namespace TypeIndex

inductive Implements (x : TypeIndex) (source : SourceType) : Signature → Prop where
  | method {node : TypeNode} {m : Method} (hnode : x.hierarchy.get? source.decl.name = some node)
      (hm : m ∈ node.methods) : Implements x source m.signature
  | defaultConstructor {m : Method} (hm : m ∈ x.catalog.constructors source.decl.name) :
      Implements x source m.signature
  | staticInit : Implements x source (.staticInit source.decl.name)

end TypeIndex

namespace BodyTable

variable {x : TypeIndex} {decls : Declarations} {bodies : BodyTable} {s : Signature} {body : Body}

/-- What holds of the bodies in the table and of each that a source type can add holds of all
bodies after they are added. -/
theorem forall_getElem?_addType {P : Signature → Body → Prop} {source : SourceType}
    (h : ∀ s b, bodies[s]? = some b → P s b)
    (hdeclared : ∀ node method i, x.hierarchy.get? source.decl.name = some node →
      node.methods[i]? = some method → P method.signature ⟨source, .declared i⟩)
    (hdefault : ∀ m ∈ x.catalog.constructors source.decl.name,
      P m.signature ⟨source, .defaultConstructor⟩)
    (hstatic : P (.staticInit source.decl.name) ⟨source, .staticInit⟩) :
    ∀ s b, (bodies.addType x source)[s]? = some b → P s b := by
  unfold BodyTable.addType
  extract_lets name
  split
  · exact h
  · next node hnode =>
    extract_lets declared constructed
    have hmethods : ∀ s b, declared[s]? = some b → P s b := by
      refine List.foldlRecOn (motive := fun table => ∀ s b, table[s]? = some b → P s b) _ _ h
        fun table htable entry hentry => ?_
      obtain ⟨⟨m, method⟩, i⟩ := entry
      rw [List.mk_mem_zipIdx_iff_getElem?, List.getElem?_zip_eq_some] at hentry
      dsimp only
      split
      · exact forall_getElem?_insert htable (hdeclared node method i hnode hentry.2)
      · exact htable
    have hconstructed : ∀ s b, constructed[s]? = some b → P s b := by
      unfold constructed
      split
      · next m hm =>
        exact forall_getElem?_insert hmethods (hdefault m (List.mem_of_find?_eq_some hm))
      · exact hmethods
    split
    · exact forall_getElem?_insert hconstructed hstatic
    · exact hconstructed

def BelongTo (x : TypeIndex) (P : SourceType → Prop) (bodies : BodyTable) : Prop :=
  ∀ (s : Signature) (body : Body), bodies[s]? = some body →
    P body.source ∧ x.Implements body.source s

theorem BelongTo.addType {P : SourceType → Prop} (h : bodies.BelongTo x P) {source : SourceType}
    (hsource : P source) : (bodies.addType x source).BelongTo x P := by
  refine forall_getElem?_addType h (fun node method i hnode hmethod => ?_) (fun m hm => ?_) ?_
  · exact ⟨hsource, .method hnode (List.mem_of_getElem? hmethod)⟩
  · exact ⟨hsource, .defaultConstructor hm⟩
  · exact ⟨hsource, .staticInit⟩

theorem belongTo_build (x : TypeIndex) (decls : Declarations) :
    (build x decls).BelongTo x fun source => ∃ name : String, decls[name]? = some source := by
  rw [build, Std.ExtTreeMap.foldl_eq_foldl_toList]
  refine List.foldlRecOn _ _ (fun s body h => by simp at h) fun bodies hbodies entry hentry => ?_
  exact hbodies.addType ⟨entry.1, Std.ExtTreeMap.mem_toList_iff_getElem?_eq_some.mp hentry⟩

end BodyTable

namespace Program

variable {units : List CompilationUnit} {library : Library} {policy : CyclePolicy} {p : Program}

def StandsIn (p : Program) (body : Body) (u : CompilationUnit) : Prop :=
  p.units[body.source.ref.unit]? = some u ∧ u.types[body.source.ref.index]? = some body.source.decl

theorem mem_unitBodies {unit : Nat} {s : Signature} {body : Body} :
    (s, body) ∈ p.unitBodies unit ↔ p.body? s = some body ∧ body.source.ref.unit = unit := by
  simp [unitBodies, body?, Std.ExtTreeMap.mem_toList_iff_getElem?_eq_some]

theorem build_eq_ok_iff : build units library policy = .ok p ↔
    ∃ nodes, library.nodes = .ok nodes ∧
      let decls := Declarations.ofUnits units
      let names := typeNames nodes units
      ∃ index, TypeIndex.build (typeNodes nodes decls names) policy = .ok index ∧
        p = ⟨units.toArray, names, index, decls, .build index decls,
          (BodyTable.build index decls).byType⟩ := by
  unfold build
  rw [bind_eq_ok_iff]
  refine exists_congr fun nodes => and_congr_right fun _ => ?_
  dsimp only
  rw [bind_eq_ok_iff]
  refine exists_congr fun index => and_congr_right fun _ => ?_
  exact ⟨fun h => (Except.ok.inj h).symm, fun h => congrArg Except.ok h.symm⟩

theorem units_of_build (h : build units library policy = .ok p) : p.units = units.toArray := by
  obtain ⟨nodes, -, index, -, rfl⟩ := build_eq_ok_iff.mp h
  rfl

theorem body?_of_build (h : build units library policy = .ok p) {s : Signature} {body : Body}
    (hbody : p.body? s = some body) :
    (Declarations.ofUnits units)[body.source.decl.name]? = some body.source ∧
      p.index.Implements body.source s := by
  obtain ⟨nodes, -, index, -, rfl⟩ := build_eq_ok_iff.mp h
  obtain ⟨⟨name, hname⟩, himplements⟩ := BodyTable.belongTo_build index _ s body hbody
  rw [(Declarations.of_getElem?_ofUnits hname).2]
  exact ⟨hname, himplements⟩

theorem exists_standsIn_of_build (h : build units library policy = .ok p) {s : Signature}
    {body : Body} (hbody : p.body? s = some body) : ∃ u, p.StandsIn body u := by
  obtain ⟨hcounts, -⟩ := body?_of_build h hbody
  obtain ⟨u, hu, hdecl, -⟩ :=
    Declarations.mem_listed.mp (Declarations.of_getElem?_ofUnits hcounts).1
  exact ⟨u, by simpa [units_of_build h] using hu, hdecl⟩

theorem catalog_of_build (h : build units library policy = .ok p) :
    p.catalog = .build p.hierarchy := by
  obtain ⟨nodes, -, index, hindex, rfl⟩ := build_eq_ok_iff.mp h
  unfold TypeIndex.build at hindex
  split at hindex
  · cases hindex
    rfl
  · cases hindex

end Program

end JavaCallGraph
