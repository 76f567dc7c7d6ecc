import JavaCallGraph.Error
import JavaCallGraph.Hierarchy.Closure
import JavaCallGraph.Hierarchy.Search

/-!
# The type hierarchy

All types of a run with their direct and transitive subtypes and supertypes. A type that names
itself as a supertype loses that edge. A supertype that is declared nowhere gets a node of its own.
Types on a cycle either stop the run or lose their supertypes.
-/

namespace JavaCallGraph

/-- What is done about a cycle of supertypes. -/
inductive CyclePolicy where
  /-- The types on it lose their supertypes. -/
  | degrade
  /-- The run stops. -/
  | fail
  deriving DecidableEq, Repr, Inhabited

namespace TypeNode

def withoutSelfEdges (n : TypeNode) : TypeNode :=
  { n with
    superclass := n.superclass.filter (· != n.name)
    interfaces := n.interfaces.filter (· != n.name) }

def withoutSupertypes (n : TypeNode) : TypeNode :=
  { n with superclass := none, interfaces := [], superArgs := ∅ }

@[simp] theorem supertypes_withoutSupertypes (n : TypeNode) :
    n.withoutSupertypes.supertypes = [] := rfl

end TypeNode

namespace TypeTable

/-- Of several nodes of one name the last one stays. -/
def ofList (nodes : List TypeNode) : TypeTable :=
  nodes.foldl (fun table node => table.insert node.name node) ∅

/-- Adds a node for each supertype of the listed nodes that has none. -/
def addSupertypesOf (stored : List (String × TypeNode)) (table : TypeTable) : TypeTable :=
  (stored.flatMap fun (_, node) => node.supertypes).foldl
    (fun all sup => all.insertIfNew sup (.dangling sup)) table

def addDangling (table : TypeTable) : TypeTable := addSupertypesOf table.toList table

def declared (nodes : List TypeNode) : TypeTable :=
  (ofList nodes).map fun _ node => node.withoutSelfEdges

/-- The types of a run before cycles are looked for. -/
def ofNodes (nodes : List TypeNode) : TypeTable := addDangling (declared nodes)

def names (table : TypeTable) : NameSet := Std.ExtTreeSet.ofList table.keys

/-- Goes through all types, each time trying the last supertype first. -/
def search (table : TypeTable) (roots : List String) : Search :=
  Search.all (fun name => (table.supertypes name).reverse) table.names roots

/-- The types that the search meets on a cycle. -/
def cyclic (table : TypeTable) : NameSet := (table.search table.keys).cyclic

def cut (table : TypeTable) (cyclic : NameSet) : TypeTable :=
  table.map fun name node => if cyclic.contains name then node.withoutSupertypes else node

end TypeTable

structure Hierarchy where
  nodes : TypeTable
  names : NameSet
  /-- Direct subtypes. -/
  subtypes : NameMap NameSet
  /-- Transitive subtypes. The root class is left out as a supertype. -/
  below : NameMap NameSet
  /-- Transitive supertypes, the root class left out. -/
  above : NameMap NameSet

namespace Hierarchy

/-- The index of a table without cycles, by a work list that starts with `work`. -/
def indexFrom (work : List String) (table : TypeTable) : Hierarchy :=
  let below := table.descendantsFrom work
  { nodes := table, names := table.names, subtypes := table.subtypes
    below, above := below.inverse }

/-- The index of a table without cycles. The list starts with subtypes before their supertypes, so
that few sets are spread twice. -/
def index (table : TypeTable) : Hierarchy := indexFrom (table.search table.keys).finished table

def build (nodes : List TypeNode) (policy : CyclePolicy) : Result Hierarchy :=
  let table := TypeTable.ofNodes nodes
  let cyclic := table.cyclic
  if cyclic.isEmpty then .ok (index table)
  else
    match policy with
    | .fail => .error (.hierarchyCycle cyclic.toList)
    | .degrade => .ok (index (table.cut cyclic))

variable (h : Hierarchy)

def get? (name : String) : Option TypeNode := h.nodes[name]?

def contains (name : String) : Bool := h.nodes.contains name

def size : Nat := h.nodes.size

def directSubtypes (name : String) : List String := (h.subtypes.namesOf name).toList

/-- The transitive subtypes of a type without the type itself; none of the root class. -/
def descendants (name : String) : NameSet := h.below.namesOf name

/-- The transitive supertypes of a type without the type itself and without the root class. -/
def ancestors (name : String) : NameSet := h.above.namesOf name

def isSubtype (sub sup : String) : Bool :=
  sub == sup || sup == Descriptor.objectName || (h.ancestors sub).contains sup

theorem isSubtype_refl (name : String) : h.isSubtype name name := by simp [isSubtype]

theorem isSubtype_object (name : String) : h.isSubtype name Descriptor.objectName := by
  simp [isSubtype]

def superclass? (name : String) : Option String := h.get? name >>= TypeNode.superclass

/-- A type with all its transitive subtypes. -/
def cone (name : String) : NameSet := (h.descendants name).insert name

theorem mem_cone {name sub : String} :
    sub ∈ h.cone name ↔ sub = name ∨ sub ∈ h.descendants name := by
  simp [cone, eq_comm (a := sub)]

def isInterface (name : String) : Bool := (h.get? name).any TypeNode.isInterface

/-- All types, each after its supertypes, by a search that starts with `roots`. -/
def supertypesFirst (roots : List String) : List String := (h.nodes.search roots).finished.reverse

end Hierarchy

end JavaCallGraph
