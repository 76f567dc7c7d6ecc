import JavaCallGraph.Signature
import JavaCallGraph.StaticType

/-!
# Type nodes

A type node is one declared class, interface or enum with its members and its direct supertypes.
Nodes come from Java sources and from library descriptions, and one is made up for each supertype
that is declared nowhere.
-/

namespace JavaCallGraph

inductive TypeKind where
  | plain | interface | enum | anonymous
  deriving DecidableEq, Repr, Inhabited

inductive Origin where
  | source
  | library
  /-- Named as a supertype and declared nowhere. -/
  | dangling
  deriving DecidableEq, Repr, Inhabited

inductive MethodKind where
  | static | constructor | virtual | default
  deriving DecidableEq, Repr, Inhabited

structure TypeParam where
  name : String
  bound : Option StaticType
  deriving Repr, Inhabited

structure Method where
  signature : Signature
  kind : MethodKind
  isAbstract : Bool := false
  isPrivate : Bool := false
  isVarargs : Bool := false
  /-- Written by nobody: a default constructor or an implicit enum method. -/
  isSynthetic : Bool := false
  typeParams : List TypeParam := []
  params : List StaticType
  ret : StaticType
  deriving Repr, Inhabited

namespace Method

def name (m : Method) : String := m.signature.name

def declaring (m : Method) : String := m.signature.declaring

def arity (m : Method) : Nat := m.signature.params.length

/-- Calls of the method are decided by the receiver's runtime type. -/
def isDispatched (m : Method) : Bool :=
  (m.kind == .virtual || m.kind == .default) && !m.isPrivate

/-- One name and matching erased parameters, so that either can override the other. -/
def sameShape (m n : Method) : Bool :=
  m.name == n.name && Descriptor.allMatchErased m.signature.params n.signature.params

theorem sameShape_of_signature_eq {m n : Method} (h : m.signature = n.signature) :
    m.sameShape n := by
  simp [sameShape, name, h, Descriptor.allMatchErased_self]

theorem sameShape_comm (m n : Method) : m.sameShape n = n.sameShape m := by
  rw [sameShape, sameShape, BEq.comm, Descriptor.allMatchErased_comm]

end Method

structure Field where
  name : String
  declaring : String
  type : StaticType
  isStatic : Bool
  deriving Repr, Inhabited

namespace Field

/-- Adds a field at the end, or in the place of the field of that name. -/
def put (fields : List Field) (f : Field) : List Field :=
  match fields with
  | [] => [f]
  | g :: rest => if g.name == f.name then f :: rest else g :: put rest f

/-- Adds a field at the end unless there is one of that name. -/
def putNew (fields : List Field) (f : Field) : List Field :=
  if fields.any (·.name == f.name) then fields else fields ++ [f]

def find? (fields : List Field) (name : String) : Option Field :=
  List.find? (·.name == name) fields

end Field

structure TypeNode where
  name : String
  kind : TypeKind := .plain
  origin : Origin := .source
  superclass : Option String := none
  interfaces : List String := []
  /-- The type arguments that each direct supertype is given. -/
  superArgs : NameMap (List StaticType) := ∅
  typeParams : List TypeParam := []
  methods : List Method := []
  /-- At most one field of a name. -/
  fields : List Field := []
  isAbstract : Bool := false
  enclosing : Option String := none

namespace TypeNode

def dangling (name : String) : TypeNode := { name, origin := .dangling }

def isInterface (n : TypeNode) : Bool := n.kind == .interface

/-- The superclass, then the interfaces in the order of their declaration. -/
def supertypes (n : TypeNode) : List String := n.superclass.toList ++ n.interfaces

/-- Objects of exactly this type can exist. -/
def isInstantiable (n : TypeNode) : Bool := !n.isAbstract && n.kind != .interface

/-- The supertype `name` with the arguments that this type gives it. -/
def viewOf (n : TypeNode) (name : String) : StaticType :=
  ⟨.reference name, n.superArgs[name]?.getD []⟩

end TypeNode

end JavaCallGraph
