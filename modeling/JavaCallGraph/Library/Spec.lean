import JavaCallGraph.Json.Shape
import JavaCallGraph.Library.MemberText

/-!
# Library descriptions

A library lists types with their members as texts, and for some types the methods that the
surrounding runtime calls back. A description is read from JSON; one may be merged over another.
-/

namespace JavaCallGraph

structure LibraryType where
  kind : TypeKind := .plain
  superclass : Option String := none
  interfaces : List String := []
  typeParams : List String := []
  methods : List String := []
  fields : List String := []
  isAbstract : Bool := false
  deriving Inhabited

/-- Names of the methods that the runtime calls, by the type that lists them. -/
abbrev Callbacks := NameMap NameSet

structure Library where
  types : NameMap LibraryType := ∅
  callbacks : Callbacks := ∅

/-- A member or type text of `owner` that cannot be read. -/
structure LibraryError where
  owner : String
  fault : LibraryFault
  deriving Repr

namespace LibraryType

open MemberText

def scope (t : LibraryType) : List String :=
  t.typeParams.map fun p => String.ofList (typeParamName p.toList)

/-- The superclass as written, else the one that every class or enum has. -/
def superclassType (t : LibraryType) (name : String) : Except LibraryFault (Option StaticType) :=
  match t.superclass with
  | some text => (parseType t.scope text.toList).map some
  | none =>
    match t.kind with
    | .enum => .ok (some (.reference "java.lang.Enum"))
    | .plain => .ok (if name == Descriptor.objectName then none else some .object)
    | _ => .ok none

/-- Records the arguments of a supertype, if it has any. -/
def addSuperArgs (args : NameMap (List StaticType)) (name : String) (t : StaticType) :
    NameMap (List StaticType) :=
  if t.args.isEmpty then args else args.insert name t.args

/-- The supertypes that are classes or interfaces; others are dropped. -/
def addSuperclass (node : TypeNode) (t : Option StaticType) : TypeNode :=
  match t with
  | none => node
  | some t =>
    match t.referenceName? with
    | none => node
    | some name =>
      { node with superclass := some name, superArgs := addSuperArgs node.superArgs name t }

def addInterface (node : TypeNode) (t : StaticType) : TypeNode :=
  match t.referenceName? with
  | none => node
  | some name =>
    { node with
      interfaces := node.interfaces ++ [name]
      superArgs := addSuperArgs node.superArgs name t }

def toNode (t : LibraryType) (name : String) : Except LibraryFault TypeNode := do
  let typeParams ← t.typeParams.mapM fun p => parseTypeParam t.scope p.toList
  let superclass ← t.superclassType name
  let interfaces ← t.interfaces.mapM fun text => parseType t.scope text.toList
  let methods ← t.methods.mapM (parseMethod name t.kind t.scope)
  let fields ← t.fields.mapM (parseField name t.scope)
  let node : TypeNode := {
    name
    kind := t.kind
    origin := .library
    isAbstract := t.isAbstract || t.kind == .interface
    typeParams, methods
    fields := fields.foldl Field.put [] }
  return interfaces.foldl addInterface (addSuperclass node superclass)

end LibraryType

namespace Library

/-- Types of `other` replace those of the same name; callbacks are added. -/
def merge (library other : Library) : Library where
  types := other.types.foldl (fun types name t => types.insert name t) library.types
  callbacks := other.callbacks.foldl (fun callbacks name names =>
    callbacks.insert name (callbacks[name]?.getD ∅ ∪ names)) library.callbacks

/-- The nodes of all types in the order of their names, or the first text that cannot be read. -/
def typeNodes (library : Library) : Except LibraryError (List TypeNode) :=
  library.types.toList.mapM fun (name, t) =>
    match t.toNode name with
    | .ok node => .ok node
    | .error fault => .error ⟨name, fault⟩

/-! ### Reading -/

open Json

def readKind : Read TypeKind :=
  asVariant [("class", .plain), ("interface", .interface), ("enum", .enum)]

def readType : Read LibraryType := fun value => do
  let names := ["kind", "superclass", "interfaces", "type_params", "methods", "fields",
    "is_abstract"]
  let fields ← asRecord names false value
  return {
    kind := ← fields.getD "kind" readKind .plain
    superclass := ← fields.getD "superclass" (asOptional asText) none
    interfaces := ← fields.getD "interfaces" (asList asText) []
    typeParams := ← fields.getD "type_params" (asList asText) []
    methods := ← fields.getD "methods" (asList asText) []
    fields := ← fields.getD "fields" (asList asText) []
    isAbstract := ← fields.getD "is_abstract" asBool false }

def readNames : Read NameSet := fun value => return Std.ExtTreeSet.ofList (← asList asText value)

def ofJson : Read Library := fun value => do
  let fields ← asRecord ["types", "callbacks"] false value
  return {
    types := ← fields.getD "types" (asMap readType) ∅
    callbacks := ← fields.getD "callbacks" (asMap readNames) ∅ }

end Library

end JavaCallGraph
