import JavaCallGraph.Proofs.FirstDeclarations
import JavaCallGraph.Proofs.MethodMasking
import JavaCallGraph.Proofs.PlainClasses

/-!
# Overloads that a subclass loses

A class takes the methods of its superclass over one after the other, and leaves out what it sees a
method of the same shape for. This is meant for methods that it overrides. But two overloads of the
superclass can have one shape too, since a type variable matches every class. Then the second one
is lost, although nothing overrides it.
-/

namespace JavaCallGraph

namespace Inheritance

variable {h : Hierarchy} {i : Inheritance} {m : Method}

theorem visible_foldl_addFromClass (methods : List Method) :
    ∀ v ∈ i.visible, v ∈ (methods.foldl (addFromClass h) i).visible := by
  induction methods generalizing i with
  | nil => exact fun v hv => hv
  | cons m methods ih => exact fun v hv => ih v (visible_addFromClass h i m v hv)

/-- A method of a class is taken over, or left out for one of the type itself or for one that comes
before it. -/
theorem visible_or_exists_before (own before after : List Method) (hpublic : ¬ m.isPrivate)
    (hclass : ¬ h.isInterface m.declaring) :
    m ∈ ((before ++ m :: after).foldl (addFromClass h) { visible := own }).visible ∨
      ∃ n ∈ ((before ++ m :: after).foldl (addFromClass h) { visible := own }).visible,
        n.sameShape m ∧ (n ∈ own ∨ n ∈ before) := by
  have hbefore := fromClass_foldl h own before
  rw [List.foldl_append, List.foldl_cons]
  generalize before.foldl (addFromClass h) { visible := own } = i at hbefore ⊢
  rcases addFromClass_cases h i m with ⟨hskip, hstep⟩ | ⟨-, -, hinterface, -⟩ | ⟨-, -, -, hstep⟩
  · obtain ⟨n, hn, hshape⟩ := shadows_iff.mp (hskip.resolve_left hpublic)
    rw [hstep]
    refine .inr ⟨n, visible_foldl_addFromClass after n hn, hshape, ?_⟩
    exact (hbefore.takes.source n hn).imp_right And.left
  · exact (hclass hinterface).elim
  · exact .inl (visible_foldl_addFromClass after m (by simp [hstep]))

end Inheritance

theorem MemberTable.visible_inheritance (h : Hierarchy) (table : MemberTable) (n : TypeNode) :
    (table.inheritance h n).visible =
      ((n.superclass.toList.flatMap fun sup => (table.get sup).methods).foldl
        (Inheritance.addFromClass h) { visible := n.declaredMethods }).visible := by
  rw [inheritance_eq, Inheritance.visible_foldl_addFromInterface]
  rfl

namespace Catalog

variable {nodes : List TypeNode} {policy : CyclePolicy} {h : Hierarchy} {type parent : String}
  {node : TypeNode} {before after : List Method} {m n : Method}

/-- Of the methods of one shape that no method of the subclass matches, it keeps the first. -/
theorem mem_methods_iff_of_listed (hb : Hierarchy.build nodes policy = .ok h)
    (hnode : h.get? type = some node) (hparent : node.superclass = some parent)
    (hlisted : ((build h).membersOf parent).methods = before ++ m :: after)
    (hpublic : ¬ m.isPrivate) (hclass : ¬ h.isInterface m.declaring)
    (hown : ∀ n ∈ node.declaredMethods, ¬ n.sameShape m) :
    m ∈ ((build h).membersOf type).methods ↔
      ∀ n ∈ before, n ∈ ((build h).membersOf type).methods → n.sameShape m → n = m := by
  have hi := (build h).members.inherits_inheritance h node
  have hseen : (node.superclass.toList.flatMap fun sup => ((build h).members.get sup).methods) =
      before ++ m :: after := by
    rw [hparent, Option.toList_some, List.flatMap_singleton]
    exact hlisted
  have hfirst := (build h).members.visible_inheritance h node ▸ hseen ▸
    Inheritance.visible_or_exists_before node.declaredMethods before after hpublic hclass
  rw [methods_eq hb hnode]
  constructor
  · intro hm n _ hn hshape
    -- What keeps a class method from being taken over at once also keeps it from the survivors.
    have hvisible : m ∈ ((build h).members.inheritance h node).visible := by
      rcases hfirst with hvisible | ⟨k, hk, hkm, -⟩
      · exact hvisible
      · exact (List.mem_append.mp hm).resolve_right fun hleft =>
          hi.not_sameShape_of_mem_survivors hk hleft hkm
    rcases List.mem_append.mp hn with hn | hn
    · refine (hi.takes.apart n hn m hvisible hshape).resolve_right fun hboth => ?_
      exact hown n hboth.1 hshape
    · rw [Method.sameShape_comm] at hshape
      exact (hi.not_sameShape_of_mem_survivors hvisible hn hshape).elim
  · intro hall
    rcases hfirst with hvisible | ⟨n, hn, hshape, hdeclared | hbefore⟩
    · exact List.mem_append_left _ hvisible
    · exact (hown n hdeclared hshape).elim
    · have hkept := List.mem_append_left
        (((build h).members.inheritance h node).survivors h) hn
      exact hall n hbefore hkept hshape ▸ hkept

end Catalog

namespace Program

variable {units : List CompilationUnit} {library : Library} {policy : CyclePolicy} {p : Program}
  {type parent : String} {node : TypeNode} {before after : List Method} {m : Method}

/-- A class method that the superclass of a type sees, that is not private and whose shape no method
of the type itself has. The type sees it exactly if it sees no other method of its shape that comes
before it among those of the superclass. Where superinterfaces are interfaces, it can be lost only
if the superclass sees two methods of its shape that one class declares. -/
theorem inherited_iff_first_of_shape (hb : build units library policy = .ok p)
    (hnode : p.hierarchy.get? type = some node) (hparent : node.superclass = some parent)
    (hlisted : (p.catalog.membersOf parent).methods = before ++ m :: after)
    (hpublic : ¬ m.isPrivate) (hclass : ¬ p.hierarchy.isInterface m.declaring)
    (hown : ∀ n ∈ node.declaredMethods, ¬ n.sameShape m) :
    (m ∈ (p.catalog.membersOf type).methods ↔
      ∀ n ∈ before, n ∈ (p.catalog.membersOf type).methods → n.sameShape m → n = m) ∧
    (p.hierarchy.ProperInterfaces →
      (∀ n ∈ (p.catalog.membersOf parent).methods, n.declaring = m.declaring → n.sameShape m →
        n = m) → m ∈ (p.catalog.membersOf type).methods) := by
  obtain ⟨nodes, hbuild, -⟩ := build_hierarchy_of_build hb
  have hnames := (ownsMethods_of_build hb).namesOwners
  rw [catalog_of_build hb] at hlisted ⊢
  have hiff := Catalog.mem_methods_iff_of_listed hbuild hnode hparent hlisted hpublic hclass hown
  refine ⟨hiff, fun hproper honly => hiff.mpr fun n hbefore _ hshape => ?_⟩
  have hn : n ∈ ((Catalog.build p.hierarchy).membersOf parent).methods := by
    simp [hlisted, hbefore]
  have hm : m ∈ ((Catalog.build p.hierarchy).membersOf parent).methods := by simp [hlisted]
  refine honly n hn ?_ hshape
  by_contra hdeclaring
  -- Methods of different types that the superclass sees in one shape stem from interfaces.
  obtain ⟨parentNode, hparentNode⟩ := Catalog.exists_node_of_mem_methods hbuild hm
  have hleft := (Catalog.mem_survivors_of_sameShape hbuild hnames hparentNode hn hm hshape
    hdeclaring).2
  exact hclass (Catalog.isInterface_of_mem_survivors hproper hnames hparentNode hleft)

/-- The class `P<T>` declares `f(T)`, `f(A)` and `g()`, and its subclass `C` no method. -/
def genericOverloads : CompilationUnit :=
  .plain [
    .plain "A" none [],
    { TypeDecl.plain "P" none [
        .plain "f" [("T", "x")] "void" [],
        .plain "f" [("A", "x")] "void" [],
        .plain "g" [] "void" []] with
      typeParams := [⟨"T", none⟩] },
    .plain "C" (some "P") []]

theorem build_genericOverloads : ∃ p node first second third,
    build [genericOverloads] {} .degrade = .ok p ∧ p.hierarchy.ProperInterfaces ∧
    p.hierarchy.get? "p.C" = some node ∧ node.superclass = some "p.P" ∧
    node.declaredMethods = [] ∧ (p.catalog.membersOf "p.P").methods = [first, second, third] ∧
    (∀ m ∈ [first, second, third], ¬ m.isPrivate ∧ ¬ p.hierarchy.isInterface m.declaring) ∧
    first.signature = ⟨"p.P", "f", [.typeVar "T"], .void⟩ ∧
    second.signature = ⟨"p.P", "f", [.reference "p.A"], .void⟩ ∧
    third.signature = ⟨"p.P", "g", [], .void⟩ ∧
    (p.catalog.membersOf "p.C").methods.map Method.signature =
      [⟨"p.P", "f", [.typeVar "T"], .void⟩, ⟨"p.P", "g", [], .void⟩] := by
  obtain ⟨p, hp, h⟩ := exists_ok_of_any (build [genericOverloads] {} .degrade)
    (fun p => decide (p.hierarchy.ProperInterfaces ∧
      (∃ node ∈ p.hierarchy.get? "p.C", node.superclass = some "p.P" ∧
        node.declaredMethods = []) ∧
      (∀ m ∈ (p.catalog.membersOf "p.P").methods,
        ¬ m.isPrivate ∧ ¬ p.hierarchy.isInterface m.declaring) ∧
      (p.catalog.membersOf "p.P").methods.map Method.signature =
        [⟨"p.P", "f", [.typeVar "T"], .void⟩, ⟨"p.P", "f", [.reference "p.A"], .void⟩,
          ⟨"p.P", "g", [], .void⟩] ∧
      (p.catalog.membersOf "p.C").methods.map Method.signature =
        [⟨"p.P", "f", [.typeVar "T"], .void⟩, ⟨"p.P", "g", [], .void⟩])) (by decide +kernel)
  obtain ⟨hproper, ⟨node, hnode, hparent, hdeclared⟩, hmethods, hsignatures, hvisible⟩ :=
    of_decide_eq_true h
  obtain ⟨first, _, hlisted, hfirst, hrest⟩ := List.map_eq_cons_iff.mp hsignatures
  obtain ⟨second, _, rfl, hsecond, hrest⟩ := List.map_eq_cons_iff.mp hrest
  obtain ⟨third, _, rfl, hthird, hrest⟩ := List.map_eq_cons_iff.mp hrest
  rw [List.map_eq_nil_iff.mp hrest] at hlisted
  exact ⟨p, node, first, second, third, hp, hproper, hnode, hparent, hdeclared, hlisted,
    hlisted ▸ hmethods, hfirst, hsecond, hthird, hvisible⟩

/-- Of `f(T)` and `f(A)` the class `C` keeps the first, and `g()` has its shape alone. -/
theorem inherited_iff_first_of_shape_genericOverloads :
    ∃ p first second third, build [genericOverloads] {} .degrade = .ok p ∧
      (p.catalog.membersOf "p.P").methods = [first, second, third] ∧
      first ∈ (p.catalog.membersOf "p.C").methods ∧
      second ∉ (p.catalog.membersOf "p.C").methods ∧
      third ∈ (p.catalog.membersOf "p.C").methods := by
  obtain ⟨p, node, first, second, third, hp, hproper, hnode, hparent, hdeclared, hlisted, hmethods,
    hfirst, hsecond, hthird, -⟩ := build_genericOverloads
  have htaken (before after : List Method) (m : Method)
      (hsplit : [first, second, third] = before ++ m :: after) :=
    have hm := hmethods m (by simp [hsplit])
    inherited_iff_first_of_shape hp hnode hparent (hlisted.trans hsplit) hm.1 hm.2
      (by simp [hdeclared])
  have hkept : first ∈ (p.catalog.membersOf "p.C").methods :=
    (htaken [] [second, third] first rfl).1.mpr (by simp)
  refine ⟨p, first, second, third, hp, hlisted, hkept, fun hm => ?_, ?_⟩
  · have hshape : first.sameShape second := by
      simp only [Method.sameShape, Method.name, hfirst, hsecond]
      decide
    have hsame := (htaken [first] [third] second rfl).1.mp hm first (by simp) hkept hshape
    simp [hsame, hsecond] at hfirst
  · refine (htaken [first, second] [] third rfl).2 hproper ?_
    simp [hlisted, Method.sameShape, Method.name, hfirst, hsecond, hthird]

/-- Only a method of its own keeps a type from seeing a class method of its superclass. -/
def InheritsAll (p : Program) : Prop :=
  ∀ type node parent, p.hierarchy.get? type = some node → node.superclass = some parent →
    ∀ m ∈ (p.catalog.membersOf parent).methods, ¬ m.isPrivate →
      ¬ p.hierarchy.isInterface m.declaring → (∀ n ∈ node.declaredMethods, ¬ n.sameShape m) →
        m ∈ (p.catalog.membersOf type).methods

/-- Nothing overrides `f(A)`, and still `C` does not see it. -/
theorem not_inheritsAll_genericOverloads :
    ∃ p, build [genericOverloads] {} .degrade = .ok p ∧ ¬ p.InheritsAll := by
  obtain ⟨p, node, first, second, third, hp, -, hnode, hparent, hdeclared, hlisted, hmethods, -,
    hsecond, -, hvisible⟩ := build_genericOverloads
  refine ⟨p, hp, fun hall => ?_⟩
  have hm := hmethods second (by simp)
  have hkept := hall "p.C" node "p.P" hnode hparent second (by simp [hlisted]) hm.1 hm.2
    (by simp [hdeclared])
  have hsignature := List.mem_map_of_mem (f := Method.signature) hkept
  rw [hvisible, hsecond] at hsignature
  revert hsignature
  decide

end Program

end JavaCallGraph
