import JavaCallGraph.Catalog
import JavaCallGraph.Scope

/-!
# Programs

Compilation units and a library put together. Of several declarations of one type name the first
one counts, and a source type goes before a library type. Every method body of a source type is
found by the signature that it implements.
-/

namespace JavaCallGraph

/-- The place of a declaration: its unit, and its place among the unit's types. -/
structure DeclRef where
  unit : Nat
  index : Nat
  deriving DecidableEq, Repr, Inhabited

/-- A declaration with the scope of its unit. -/
structure SourceType where
  ref : DeclRef
  scope : UnitScope
  decl : TypeDecl

/-- The part of a declaration that implements a signature. -/
inductive BodyKind where
  /-- A declared method, by its place. -/
  | declared (index : Nat)
  /-- The constructor of a class that declares none. -/
  | defaultConstructor
  /-- Static field initializers and static blocks. -/
  | staticInit
  deriving DecidableEq, Repr, Inhabited

structure Body where
  source : SourceType
  kind : BodyKind

/-- Source types by their names. -/
abbrev Declarations := NameMap SourceType

namespace Declarations

/-- All declared types of a list of units. -/
def listed (units : List CompilationUnit) : List SourceType :=
  units.zipIdx.flatMap fun (unit, u) =>
    let scope := UnitScope.ofUnit unit
    unit.types.zipIdx.map fun (decl, i) => ⟨⟨u, i⟩, scope, decl⟩

def ofUnits (units : List CompilationUnit) : Declarations :=
  (listed units).foldl (fun all source => all.insertIfNew source.decl.name source) ∅

/-- The type variables in scope inside a type: its own and those of the types around it. -/
def typeVars (decls : Declarations) (type : String) : List String :=
  (lexicalChain type).flatMap fun owner =>
    match decls[owner]? with
    | some source => source.decl.typeParams.map (·.name)
    | none => []

end Declarations

/-! ### Type nodes of declarations -/

namespace TypeNode

/-- Adds a bound supertype. Only a reference type can be one. -/
def addSuper (n : TypeNode) (asInterface : Bool) (type : StaticType) : TypeNode :=
  match type.referenceName? with
  | none => n
  | some name =>
    let n := if type.args.isEmpty then n
      else { n with superArgs := n.superArgs.insert name type.args }
    if asInterface then { n with interfaces := n.interfaces ++ [name] }
    else { n with superclass := some name }

/-- The supertype that a declaration names first. What an anonymous class extends may turn out to
be an interface. Without it a class extends the root class. -/
def addFirstSuper (n : TypeNode) (isInterface : String → Bool) : Option StaticType → TypeNode
  | some sup =>
    match n.kind with
    | .interface => n.addSuper true sup
    | .anonymous =>
      if sup.referenceName?.any isInterface then
        { n with superclass := some Descriptor.objectName }.addSuper true sup
      else n.addSuper false sup
    | _ => n.addSuper false sup
  | none =>
    if n.kind == .interface || n.name == Descriptor.objectName then n
    else { n with superclass := some Descriptor.objectName }

end TypeNode

namespace Method

def implicit (declaring name : String) (params : List StaticType) (ret : StaticType) : Method where
  signature := ⟨declaring, name, params.map StaticType.desc, ret.desc⟩
  kind := .static
  isSynthetic := true
  params
  ret

/-- The methods `values()` and `valueOf(String)` that every enum has. -/
def ofEnum (type : String) : List Method :=
  let this := StaticType.reference type
  [implicit type "values" [] this.arrayOf,
   implicit type "valueOf" [.reference Descriptor.stringName] this]

end Method

namespace TypeDecl

/-- A method declaration bound: `bind` reads a type under the given type variables. -/
def method (d : TypeDecl) (bind : List String → TypeRef → StaticType) (vars : List String)
    (m : MethodDecl) : Method :=
  let vars := vars ++ m.typeParams.map (·.name)
  let params := m.params.map fun p => bind vars p.type
  let descs := params.map StaticType.desc
  let ret := (m.ret.map (bind vars)).getD .void
  { signature :=
      match m.kind with
      | .constructor => .constructor d.name descs
      | .method => ⟨d.name, m.name, descs, ret.desc⟩
    kind :=
      match m.kind with
      | .constructor => .constructor
      | .method =>
        if m.modifiers.isStatic then .static
        else if d.kind == .interface && m.modifiers.isDefault then .default
        else .virtual
    isAbstract := m.modifiers.isAbstract && m.body.isNone
    isPrivate := m.modifiers.isPrivate
    isVarargs := m.isVarargs
    typeParams := m.typeParams.map fun p => ⟨p.name, p.bound.map (bind vars)⟩
    params
    ret :=
      match m.kind with
      | .constructor => .void
      | .method => ret }

end TypeDecl

/-- The type node of a source type. -/
def SourceType.node (source : SourceType) (decls : Declarations) (names : TypeNames)
    (isInterface : String → Bool) : TypeNode :=
  let d := source.decl
  let bind := source.scope.bind names (some d.name)
  let vars := decls.typeVars d.name
  let head : TypeNode :=
    { name := d.name, kind := d.kind, origin := .source, isAbstract := d.modifiers.isAbstract
      enclosing := d.enclosing
      typeParams := d.typeParams.map fun p => ⟨p.name, p.bound.map (bind vars)⟩ }
  let first := head.addFirstSuper isInterface (d.superclass.map (bind vars))
  let linked := (d.interfaces.map (bind vars)).foldl (·.addSuper true ·) first
  { linked with
    methods := d.methods.map (d.method bind vars) ++
      if d.kind == .enum then Method.ofEnum d.name else []
    fields := d.fields.foldl
      (fun fields f => Field.put fields ⟨f.name, d.name, bind vars f.type, f.isStatic⟩) [] }

/-! ### Bodies -/

abbrev BodyTable := SignatureMap Body

namespace BodyTable

/-- Adds the bodies of a source type, of which `node` is the type node. -/
def addType (index : TypeIndex) (bodies : BodyTable) (source : SourceType) : BodyTable :=
  let name := source.decl.name
  match index.hierarchy.get? name with
  | none => bodies
  | some node =>
    let declared := (source.decl.methods.zip node.methods).zipIdx.foldl
      (fun (bodies : BodyTable) ((m, method), i) =>
        if m.body.isSome then bodies.insert method.signature ⟨source, .declared i⟩ else bodies)
      bodies
    let constructed := match (index.catalog.constructors name).find? (·.isSynthetic) with
      | some m => declared.insert m.signature ⟨source, .defaultConstructor⟩
      | none => declared
    if source.decl.hasStaticInit then
      constructed.insert (.staticInit name) ⟨source, .staticInit⟩
    else constructed

def build (index : TypeIndex) (decls : Declarations) : BodyTable :=
  decls.foldl (fun bodies _ source => bodies.addType index source) ∅

/-- The signatures of the bodies of each type, in order. -/
def byType (bodies : BodyTable) : NameMap (List Signature) :=
  bodies.foldl
    (fun map s _ => map.alter s.declaring fun listed? => some (listed?.getD [] ++ [s])) ∅

end BodyTable

structure Program where
  units : Array CompilationUnit
  names : TypeNames
  index : TypeIndex
  decls : Declarations
  bodies : BodyTable
  byType : NameMap (List Signature)

namespace Program

/-- The type nodes of the library and then of the sources. -/
def typeNodes (library : List TypeNode) (decls : Declarations) (names : TypeNames) :
    List TypeNode :=
  let libraryKinds : NameMap TypeKind := .ofList (library.map fun n => (n.name, n.kind))
  let kindOf (name : String) : Option TypeKind :=
    (decls[name]?.map (·.decl.kind)).or libraryKinds[name]?
  library ++ decls.values.map fun source =>
    source.node decls names fun name => kindOf name == some .interface

/-- The names of the library, and then those that the units declare, as they come. -/
def typeNames (library : List TypeNode) (units : List CompilationUnit) : TypeNames :=
  .ofList (library.map TypeNode.name ++ (Declarations.listed units).map (·.decl.name))

def build (units : List CompilationUnit) (library : Library) (policy : CyclePolicy) :
    Result Program := do
  let libraryNodes ← library.nodes
  let decls := Declarations.ofUnits units
  let names := typeNames libraryNodes units
  let index ← TypeIndex.build (typeNodes libraryNodes decls names) policy
  let bodies := BodyTable.build index decls
  return { units := units.toArray, names, index, decls, bodies, byType := bodies.byType }

variable (p : Program)

def hierarchy : Hierarchy := p.index.hierarchy

def catalog : Catalog := p.index.catalog

def source? (type : String) : Option SourceType := p.decls[type]?

/-- Whether the declaration at `ref` is the one that counts for its name. -/
def owns (ref : DeclRef) : Bool :=
  (do
    let decl ← (← p.units[ref.unit]?).types[ref.index]?
    return (← p.source? decl.name).ref == ref).getD false

def body? (s : Signature) : Option Body := p.bodies[s]?

def typeBodies (type : String) : List Signature := p.byType[type]?.getD []

/-- The bodies that stand in a unit, in the order of their signatures. -/
def unitBodies (unit : Nat) : List (Signature × Body) :=
  p.bodies.toList.filter fun (_, body) => body.source.ref.unit == unit

def sourceTypeCount : Nat := p.decls.size

def bodyCount : Nat := p.bodies.size

/-- The method at a place of a type. -/
def methodAt? (type : String) (i : Nat) : Option Method := do (← p.hierarchy.get? type).methods[i]?

def typeVars (type : String) : List String := p.decls.typeVars type

/-- Binds a type written in a unit, inside the type `current`. -/
def bind (scope : UnitScope) (current : String) (vars : List String) (t : TypeRef) : StaticType :=
  scope.bind p.names (some current) vars t

end Program

end JavaCallGraph
