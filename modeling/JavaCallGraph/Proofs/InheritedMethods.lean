import JavaCallGraph.Proofs.DeclaredMethods
import JavaCallGraph.Proofs.LibraryNames
import JavaCallGraph.Proofs.ProgramBodies

/-!
# Where visible methods come from

The types of a program declare their methods under their own names. So a method that a type sees is
declared by the type itself or by a type that supertype edges lead to. If the root class has no
supertypes, the first type then lies below the second in the hierarchy.
-/

namespace JavaCallGraph

/-! ### Methods bear the name of their type -/

structure Method.OwnedBy (m : Method) (type : String) : Prop where
  declaring : m.declaring = type
  params : m.signature.params = m.params.map StaticType.desc

def TypeNode.OwnsMethods (n : TypeNode) : Prop := ∀ m ∈ n.methods, m.OwnedBy n.name

def Hierarchy.OwnsMethods (h : Hierarchy) : Prop :=
  ∀ name node, h.get? name = some node → ∀ m ∈ node.methods, m.OwnedBy name

def Hierarchy.NamesOwners (h : Hierarchy) : Prop :=
  ∀ name node, h.get? name = some node → ∀ m ∈ node.methods, m.declaring = name

theorem Hierarchy.OwnsMethods.namesOwners {h : Hierarchy} (howns : h.OwnsMethods) :
    h.NamesOwners := fun name node hnode m hm => (howns name node hnode m hm).declaring

theorem MemberText.ownedBy_of_parseMethod {owner text : String} {kind : TypeKind}
    {scope : List String} {m : Method} (h : parseMethod owner kind scope text = .ok m) :
    m.OwnedBy owner := by
  unfold parseMethod at h
  obtain ⟨⟨typeParamTexts, rest⟩, -, h⟩ := bind_eq_ok_iff.mp h
  obtain ⟨typeParams, -, h⟩ := bind_eq_ok_iff.mp h
  obtain ⟨⟨retText, name, paramsText⟩, -, h⟩ := bind_eq_ok_iff.mp h
  obtain ⟨parsed, -, h⟩ := bind_eq_ok_iff.mp h
  dsimp only at h
  split at h
  · split at h
    · cases h
    · cases h
      exact ⟨rfl, rfl⟩
  · obtain ⟨ret, -, h⟩ := bind_eq_ok_iff.mp h
    cases h
    exact ⟨rfl, rfl⟩

theorem Library.ownsMethods_of_mem_nodes {library : Library} {nodes : List TypeNode}
    (h : library.nodes = .ok nodes) {node : TypeNode} (hnode : node ∈ nodes) :
    node.OwnsMethods := by
  obtain ⟨name, t, -, htoNode⟩ := of_mem_nodes h hnode
  obtain ⟨hname, -, hmethods⟩ := LibraryType.of_toNode htoNode
  intro m hm
  obtain ⟨text, -, htext⟩ := exists_of_mapM_eq_ok hmethods m hm
  rw [hname]
  exact MemberText.ownedBy_of_parseMethod htext

theorem TypeDecl.ownedBy_method (d : TypeDecl) (bind : List String → TypeRef → StaticType)
    (vars : List String) (m : MethodDecl) : (d.method bind vars m).OwnedBy d.name := by
  constructor
  · unfold TypeDecl.method Method.declaring
    dsimp only
    split <;> rfl
  · unfold TypeDecl.method
    dsimp only
    split <;> rfl

theorem SourceType.ownsMethods_node (source : SourceType) (decls : Declarations)
    (names : TypeNames) (isInterface : String → Bool) :
    (source.node decls names isInterface).OwnsMethods := by
  intro m hm
  rw [name_node]
  rcases List.mem_append.mp hm with hm | hm
  · obtain ⟨declared, -, rfl⟩ := List.mem_map.mp hm
    exact TypeDecl.ownedBy_method _ _ _ _
  · split at hm
    · simp only [Method.ofEnum, List.mem_cons, List.not_mem_nil, or_false] at hm
      rcases hm with rfl | rfl
      · exact ⟨rfl, rfl⟩
      · exact ⟨rfl, rfl⟩
    · cases hm

namespace Program

variable {units : List CompilationUnit} {library : Library} {policy : CyclePolicy} {p : Program}

theorem ownsMethods_of_mem_typeNodes {nodes : List TypeNode} (h : library.nodes = .ok nodes)
    {decls : Declarations} {names : TypeNames} {node : TypeNode}
    (hnode : node ∈ typeNodes nodes decls names) : node.OwnsMethods := by
  rcases List.mem_append.mp hnode with hnode | hnode
  · exact Library.ownsMethods_of_mem_nodes h hnode
  · obtain ⟨source, -, rfl⟩ := List.mem_map.mp hnode
    exact SourceType.ownsMethods_node source decls names _

theorem build_hierarchy_of_build (h : build units library policy = .ok p) :
    ∃ nodes, Hierarchy.build nodes policy = .ok p.hierarchy ∧
      ∀ node ∈ nodes, node.OwnsMethods := by
  obtain ⟨nodes, hnodes, index, hindex, rfl⟩ := build_eq_ok_iff.mp h
  unfold TypeIndex.build at hindex
  split at hindex
  · next hierarchy hbuild =>
    cases hindex
    exact ⟨_, hbuild, fun node hnode => ownsMethods_of_mem_typeNodes hnodes hnode⟩
  · cases hindex

theorem ownsMethods_of_build (h : build units library policy = .ok p) :
    p.hierarchy.OwnsMethods := by
  obtain ⟨nodes, hbuild, howns⟩ := build_hierarchy_of_build h
  intro name node hnode m hm
  rcases Hierarchy.of_get?_build hbuild hnode with
    ⟨-, hnone⟩ | ⟨given, hgiven, -, -, hmethods, hname⟩
  · rw [hnone] at hm
    cases hm
  · rw [← hname]
    exact howns given hgiven m (hmethods ▸ hm)

end Program

/-! ### Visible methods -/

namespace Hierarchy

variable {h : Hierarchy} {type : String} {m : Method}

/-- The declaring type of the method has it among its methods, and is the type itself or reached
from it over supertype edges. -/
structure Sees (h : Hierarchy) (type : String) (m : Method) : Prop where
  reaches : Relation.ReflTransGen h.nodes.Extends type m.declaring
  declares : ∃ node, h.get? m.declaring = some node ∧ m ∈ node.methods

theorem Sees.head {sup : String} (hsees : h.Sees sup m) (hext : h.nodes.Extends type sup) :
    h.Sees type m :=
  ⟨.head hext hsees.reaches, hsees.declares⟩

end Hierarchy

namespace MemberTable

variable {h : Hierarchy} {table : MemberTable}

def AllSeen (h : Hierarchy) (table : MemberTable) : Prop :=
  ∀ type, ∀ m ∈ (table.get type).methods, h.Sees type m

theorem AllSeen.add (hnames : h.NamesOwners) (htable : table.AllSeen h) (name : String) :
    (table.add h name).AllSeen h := by
  unfold MemberTable.add
  split
  · next node hnode =>
    have hdeclared : ∀ m ∈ node.methods, h.Sees name m := by
      intro m hm
      have hname := hnames name node hnode m hm
      exact ⟨hname ▸ .refl, node, hname ▸ hnode, hm⟩
    have hinherited : (table.inheritance h node).All (h.Sees name) := by
      refine all_inheritance hdeclared fun sup hsup m hm => ?_
      exact (htable sup m hm).head (TypeTable.extends_iff.mpr ⟨node, hnode, hsup⟩)
    intro type m hm
    rw [MemberTable.get, Std.ExtTreeMap.getElem?_insert] at hm
    split at hm
    · next hsame =>
      rw [← Std.LawfulEqOrd.eq_of_compare hsame]
      rcases List.mem_append.mp hm with hm | hm
      · exact hinherited.1 m hm
      · exact hinherited.2 m (List.mem_filter.mp hm).1
    · exact htable type m hm
  · exact htable

theorem allSeen_build (hnames : h.NamesOwners) (roots : List String) : (build h roots).AllSeen h :=
  List.foldlRecOn _ _ (fun _ m hm => by simp [MemberTable.get] at hm) fun _ htable name _ =>
    htable.add hnames name

end MemberTable

theorem Catalog.sees_of_mem_methods {h : Hierarchy} (hnames : h.NamesOwners) {type : String}
    {m : Method} (hm : m ∈ ((Catalog.build h).membersOf type).methods) : h.Sees type m :=
  MemberTable.allSeen_build hnames h.nodes.keys type m hm

namespace Program

variable {units : List CompilationUnit} {library : Library} {policy : CyclePolicy} {p : Program}
  {type : String} {m : Method}

theorem sees_of_mem_methods (hb : build units library policy = .ok p)
    (hm : m ∈ (p.catalog.membersOf type).methods) : p.hierarchy.Sees type m := by
  rw [catalog_of_build hb] at hm
  exact Catalog.sees_of_mem_methods (ownsMethods_of_build hb).namesOwners hm

theorem params_of_mem_methods (hb : build units library policy = .ok p)
    (hm : m ∈ (p.catalog.membersOf type).methods) :
    m.signature.params = m.params.map StaticType.desc := by
  obtain ⟨node, hnode, hdeclared⟩ := (sees_of_mem_methods hb hm).declares
  exact (ownsMethods_of_build hb _ node hnode m hdeclared).params

end Program

/-! ### Types below the declaring type -/

namespace TypeTable

variable {table : TypeTable} {sub mid sup : String}

theorem Chain.trans (h : table.Chain sub mid) (hmid : mid ≠ Descriptor.objectName)
    (h' : table.Chain mid sup) : table.Chain sub sup := by
  induction h with
  | edge h => exact .step h hmid h'
  | step h hne _ ih => exact .step h hne (ih hmid h')

/-- Where the root class has no supertypes, it cannot be passed. -/
theorem chain_of_transGen (hroot : table.supertypes Descriptor.objectName = [])
    (h : Relation.TransGen table.Extends sub sup) : table.Chain sub sup := by
  induction h using Relation.TransGen.head_induction_on with
  | single h => exact .edge h
  | head hext hrest ih =>
    refine .step hext ?_ ih
    rintro rfl
    obtain ⟨next, hnext, -⟩ := Relation.TransGen.head'_iff.mp hrest
    simp [Extends, hroot] at hnext

end TypeTable

namespace Hierarchy

variable {nodes : List TypeNode} {policy : CyclePolicy} {h : Hierarchy}

theorem mem_descendants_of_build (hb : build nodes policy = .ok h) {sub sup : String} :
    sub ∈ h.descendants sup ↔ sup ≠ Descriptor.objectName ∧ h.nodes.Chain sub sup := by
  have hclosed := closed_of_build hb
  obtain rfl := build_eq_ok hb
  exact mem_descendants_index hclosed

/-- What lies below a type lies below the types that declare what it sees. -/
theorem Sees.mem_descendants (hb : build nodes policy = .ok h)
    (hroot : h.nodes.supertypes Descriptor.objectName = []) {type : String} {m : Method}
    (hsees : h.Sees type m) (hdeclaring : m.declaring ≠ Descriptor.objectName) {t : String}
    (ht : t ∈ h.descendants type) : t ∈ h.descendants m.declaring := by
  rcases Relation.reflTransGen_iff_eq_or_transGen.mp hsees.reaches with heq | htrans
  · rwa [heq]
  · obtain ⟨htype, hchain⟩ := (mem_descendants_of_build hb).mp ht
    refine (mem_descendants_of_build hb).mpr ⟨hdeclaring, ?_⟩
    exact hchain.trans htype (TypeTable.chain_of_transGen hroot htrans)

end Hierarchy

end JavaCallGraph
