import JavaCallGraph.Proofs.CyclePolicies
import JavaCallGraph.Proofs.HierarchyClosure
import JavaCallGraph.Proofs.ListedMethods

/-!
# Listed methods are declared

Whatever a type inherits stems from some node. So a method that the catalog lists is a method of a
node that the hierarchy was built from, or the default constructor of a source class.
-/

namespace JavaCallGraph

namespace Hierarchy

variable {h : Hierarchy} {nodes : List TypeNode} {policy : CyclePolicy} {m : Method}

/-- Building changes supertypes only, and what it adds has no methods. -/
theorem of_get?_build (hb : build nodes policy = .ok h) {name : String} {node : TypeNode}
    (hnode : h.get? name = some node) :
    node.origin = .dangling ∧ node.methods = [] ∨
      ∃ given ∈ nodes, node.name = given.name ∧ node.origin = given.origin ∧
        node.methods = given.methods ∧ given.name = name := by
  have hcut : (TypeTable.cut (.ofNodes nodes) (TypeTable.ofNodes nodes).cyclic)[name]? =
      some node := by
    rw [build_eq_ok hb] at hnode
    exact hnode
  rw [TypeTable.cut, Std.ExtTreeMap.getElem?_map, Option.map_eq_some_iff] at hcut
  obtain ⟨old, hold, hsame⟩ := hcut
  have hkept : node.name = old.name ∧ node.origin = old.origin ∧ node.methods = old.methods := by
    rw [← hsame]
    split
    · exact ⟨rfl, rfl, rfl⟩
    · exact ⟨rfl, rfl, rfl⟩
  rw [TypeTable.ofNodes, TypeTable.addDangling, TypeTable.getElem?_addSupertypesOf,
    Option.or_eq_some_iff] at hold
  rcases hold with hold | ⟨-, hold⟩
  · rw [TypeTable.declared, Std.ExtTreeMap.getElem?_map, Option.map_eq_some_iff] at hold
    obtain ⟨given, hgiven, rfl⟩ := hold
    rw [TypeTable.getElem?_ofList] at hgiven
    exact .inr ⟨given, List.mem_reverse.mp (List.mem_of_find?_eq_some hgiven), hkept.1, hkept.2.1,
      hkept.2.2, TypeNode.name_of_last? hgiven⟩
  · split at hold
    · cases hold
      exact .inl hkept.2
    · cases hold

/-- A node declares the method, or it is the constructor that its class has without declaring it. -/
def Provides (h : Hierarchy) (m : Method) : Prop :=
  ∃ name node, h.get? name = some node ∧
    (m ∈ node.methods ∨ node.origin = .source ∧ m = .defaultConstructor node.name)

end Hierarchy

theorem TypeNode.of_mem_constructors {n : TypeNode} {m : Method} (hm : m ∈ n.constructors) :
    m ∈ n.methods ∨ n.origin = .source ∧ m = .defaultConstructor n.name := by
  unfold constructors at hm
  dsimp only at hm
  split at hm
  · cases hm
  · split at hm
    · next hdefault =>
      simp only [Bool.and_eq_true, beq_iff_eq] at hdefault
      exact .inr ⟨hdefault.1.2, List.mem_singleton.mp hm⟩
    · exact .inl (List.mem_filter.mp hm).1

namespace Inheritance

variable {P : Method → Prop} {i : Inheritance} {m : Method}

def All (P : Method → Prop) (i : Inheritance) : Prop :=
  (∀ m ∈ i.visible, P m) ∧ ∀ m ∈ i.candidates, P m

theorem All.addFromClass (hi : i.All P) (h : Hierarchy) (hm : P m) :
    (i.addFromClass h m).All P := by
  have hmore {methods : List Method} (hmethods : ∀ n ∈ methods, P n) : ∀ n ∈ methods ++ [m], P n :=
    fun n hn => (List.mem_append.mp hn).elim (hmethods n) fun hn => List.mem_singleton.mp hn ▸ hm
  rcases addFromClass_cases h i m with ⟨-, hstep⟩ | ⟨-, -, -, hstep⟩ | ⟨-, -, -, hstep⟩
  · rwa [hstep]
  · exact hstep ▸ ⟨hi.1, hmore hi.2⟩
  · exact hstep ▸ ⟨hmore hi.1, hi.2⟩

theorem All.settle (hi : i.All P) : i.settle.All P :=
  ⟨hi.1, fun m hm => hi.2 m (List.mem_filter.mp hm).1⟩

theorem All.addFromInterface (hi : i.All P) (hm : P m) : (i.addFromInterface m).All P := by
  rcases addFromInterface_cases i m with ⟨-, hstep⟩ | ⟨-, -, -, hstep⟩
  · rwa [hstep]
  · rw [hstep]
    refine ⟨hi.1, fun n hn => ?_⟩
    rcases List.mem_append.mp hn with hn | hn
    · exact hi.2 n hn
    · exact List.mem_singleton.mp hn ▸ hm

end Inheritance

namespace MemberTable

variable {P : Method → Prop} {table : MemberTable} {h : Hierarchy}

def All (P : Method → Prop) (table : MemberTable) : Prop :=
  ∀ (type : String) (members : TypeMembers), table[type]? = some members →
    (∀ m ∈ members.constructors, P m) ∧ ∀ m ∈ members.methods, P m

theorem All.get (htable : table.All P) (type : String) :
    (∀ m ∈ (table.get type).constructors, P m) ∧ ∀ m ∈ (table.get type).methods, P m := by
  unfold MemberTable.get
  cases hmembers : table[type]? with
  | none => simp
  | some members => exact htable type members hmembers

/-- What holds of the methods of a node and of those that its supertypes see holds of all that it
inherits. -/
theorem all_inheritance {n : TypeNode} (hn : ∀ m ∈ n.methods, P m)
    (hsup : ∀ sup ∈ n.supertypes, ∀ m ∈ (table.get sup).methods, P m) :
    (table.inheritance h n).All P := by
  have hstart : Inheritance.All P { visible := n.declaredMethods } :=
    ⟨fun m hm => hn m (List.mem_filter.mp hm).1, by simp⟩
  refine List.foldlRecOn _ _ (Inheritance.All.settle ?_) fun i hi m hm => hi.addFromInterface ?_
  · refine List.foldlRecOn _ _ hstart fun i hi m hm => hi.addFromClass h ?_
    split at hm
    · next sup hclass => exact hsup sup (by simp [TypeNode.supertypes, hclass]) m hm
    · cases hm
  · obtain ⟨sup, hinterface, hm⟩ := List.mem_flatMap.mp hm
    exact hsup sup (List.mem_append_right _ hinterface) m hm

theorem All.inheritance (htable : table.All P) {n : TypeNode} (hn : ∀ m ∈ n.methods, P m) :
    (table.inheritance h n).All P := all_inheritance hn fun sup _ => (htable.get sup).2

theorem All.add (htable : table.All h.Provides) (name : String) :
    (table.add h name).All h.Provides := by
  unfold MemberTable.add
  split
  · next node hnode =>
    have hdeclared : ∀ m ∈ node.methods, h.Provides m := fun m hm => ⟨name, node, hnode, .inl hm⟩
    have hinherited := htable.inheritance (h := h) hdeclared
    refine forall_getElem?_insert htable ⟨fun m hm => ?_, fun m hm => ?_⟩
    · exact ⟨name, node, hnode, TypeNode.of_mem_constructors hm⟩
    · rcases List.mem_append.mp hm with hm | hm
      · exact hinherited.1 m hm
      · exact hinherited.2 m (List.mem_filter.mp hm).1
  · exact htable

theorem all_build (h : Hierarchy) (roots : List String) : (build h roots).All h.Provides :=
  List.foldlRecOn _ _ (fun _ _ hmembers => by simp at hmembers) fun _ htable name _ =>
    htable.add name

end MemberTable

theorem Catalog.provides_of_lists {h : Hierarchy} {m : Method} (hm : (Catalog.build h).Lists m) :
    h.Provides m := by
  obtain ⟨type, hm⟩ := hm
  have hall := (MemberTable.all_build h h.nodes.keys).get type
  exact hm.elim (hall.1 m) (hall.2 m)

end JavaCallGraph
