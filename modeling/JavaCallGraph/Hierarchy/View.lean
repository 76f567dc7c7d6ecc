import JavaCallGraph.Hierarchy

/-!
# Generic views

A receiver type seen as one of its supertypes binds the type parameters of that supertype:
`ArrayList<String>` seen as `Collection` binds `E` to `String`. The search goes breadth first
through the supertype edges and carries the bindings along.
-/

namespace JavaCallGraph

namespace TypeNode

/-- Binds the type parameters of a node; a raw or ill-sized argument list binds none. -/
def bindParams (n : TypeNode) (args : List StaticType) : Bindings :=
  if args.length = n.typeParams.length then
    .ofList ((n.typeParams.map TypeParam.name).zip args)
  else ∅

/-- The arguments that a type gives its supertype `sup`, under bindings of its own parameters. -/
def superArgsUnder (n : TypeNode) (bindings : Bindings) (sup : String) : List StaticType :=
  (n.superArgs[sup]?.getD []).map (StaticType.substitute bindings)

end TypeNode

namespace Hierarchy

/-- A supertype to be looked at, and the arguments that it is given. -/
structure SuperEdge where
  sup : String
  args : List StaticType

def superEdges (n : TypeNode) (bindings : Bindings) : List SuperEdge :=
  n.supertypes.map fun sup => ⟨sup, n.superArgsUnder bindings sup⟩

@[simp] theorem length_superEdges (n : TypeNode) (bindings : Bindings) :
    (superEdges n bindings).length = n.supertypes.length := by simp [superEdges]

/-- Breadth-first search for `goal`; each type is entered once, by the first edge that leads to
it. -/
def findView (h : Hierarchy) (goal : String) (unseen : NameSet) (agenda : List SuperEdge) :
    Bindings :=
  match agenda with
  | [] => ∅
  | ⟨sup, args⟩ :: agenda =>
    if sup ∈ unseen then
      match _hn : h.get? sup with
      | none => findView h goal (unseen.erase sup) agenda
      | some node =>
        let bindings := node.bindParams args
        if sup == goal then bindings
        else findView h goal (unseen.erase sup) (agenda ++ superEdges node bindings)
    else findView h goal unseen agenda
termination_by
  agenda.length + totalWeight (fun name => (h.nodes.supertypes name).length) unseen
decreasing_by
  · next hs =>
    rw [← totalWeight_erase hs, List.length_cons]
    omega
  · next hs _ =>
    have hw : (h.nodes.supertypes sup).length = node.supertypes.length := by
      simp [TypeTable.supertypes, show h.nodes[sup]? = some node from _hn]
    rw [← totalWeight_erase hs, List.length_append, length_superEdges, List.length_cons, hw]
    omega
  · rw [List.length_cons]
    omega

/-- The bindings of the parameters of `ancestor`, type variables among them, as `receiver` sees
it. -/
def openView (h : Hierarchy) (receiver : StaticType) (ancestor : String) : Bindings :=
  match receiver.referenceName? with
  | none => ∅
  | some start =>
    match h.get? start with
    | none => ∅
    | some node =>
      let bindings := node.bindParams receiver.args
      if start == ancestor then bindings
      else h.findView ancestor (h.names.erase start) (superEdges node bindings)

/-- The bindings of the parameters of `ancestor` as `receiver` sees it. A parameter whose binding
is still a type variable is not bound. -/
def view (h : Hierarchy) (receiver : StaticType) (ancestor : String) : Bindings :=
  (h.openView receiver ancestor).filter fun _ t => !t.desc.isTypeVar

end Hierarchy

end JavaCallGraph
