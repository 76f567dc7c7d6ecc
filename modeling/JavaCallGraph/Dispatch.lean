import JavaCallGraph.ConstraintSet
import JavaCallGraph.Overload

/-!
# Dispatch

The methods that a call site may run. The receiver is known by the set of its runtime types, or is
fixed by the form of the call. Each runtime type selects among the methods that it sees. Where the
set is unresolved, the overriding methods of all subtypes are added. An abstract method is a callee
only if there is no other.
-/

namespace JavaCallGraph

/-- How the receiver of a call is known. -/
inductive SiteReceiver where
  /-- An object of one of the classes of `set`. -/
  | object (set : ConstraintSet) (type : Option StaticType)
  /-- `super.m()`: the method that `type` sees, whatever the object. -/
  | super (type : StaticType)
  /-- `Type.m()`, or a plain call where there is no object. -/
  | static (type : String)
  /-- `new T()`, `this()` and `super()`. -/
  | constructor (type : String)

namespace TypeIndex

variable (index : TypeIndex)

/-- The runtime types to dispatch over; none if there is no receiver at all. -/
def receiverTypes (set : ConstraintSet) (type : Option StaticType) : Option NameSet :=
  if !set.isEmpty then some set.types
  else if !set.unresolved then none
  else (type >>= StaticType.referenceName?).map index.hierarchy.cone

/-- The methods called `name` that objects of a class have. An interface without one has those of
the root class. -/
def candidates (runtime name : String) : List Method :=
  let own := index.catalog.methodsNamed runtime name
  if own.isEmpty && index.hierarchy.isInterface runtime then
    index.catalog.methodsNamed Descriptor.objectName name
  else own

/-- Adds the overriding methods of each dispatched method. -/
def expandOverrides (found : List Resolution) : List Resolution :=
  found ++ (found.filter (·.method.isDispatched)).flatMap fun r =>
    (index.catalog.overriders index.hierarchy r.method).map fun m => ⟨m, r.bindings⟩

/-- Adds overriding methods where the set of runtime types may be too small. -/
def completeFor (set : ConstraintSet) (found : List Resolution) : List Resolution :=
  if set.unresolved || set.isEmpty then index.expandOverrides found else found

end TypeIndex

namespace Resolution

/-- Leaves out abstract methods if there are others. -/
def dropAbstract (found : List Resolution) : List Resolution :=
  if found.any (!·.method.isAbstract) then found.filter (!·.method.isAbstract) else found

/-- Of several resolutions of one method the first one stays. -/
def bySignature (found : List Resolution) : SignatureMap Resolution :=
  found.foldl (fun m r => m.insertIfNew r.method.signature r) ∅

/-- In the order of signatures, one resolution of each. -/
def sortUnique (found : List Resolution) : List Resolution :=
  (bySignature found).toList.map Prod.snd

def finish (found : List Resolution) : List Resolution := sortUnique (dropAbstract found)

end Resolution

namespace TypeIndex

variable (index : TypeIndex)

def resolveConstructor (type : String) (args : ArgTypes) : List Resolution :=
  let select := Overload.select index.hierarchy
  match index.hierarchy.get? type with
  | some node =>
    if node.kind == .anonymous then
      -- The constructor of an anonymous class passes its arguments on to the superclass.
      (index.catalog.constructors type).map (⟨·, ∅⟩) ++
        match node.superclass, node.interfaces with
        | some sup, [] => select (index.catalog.constructors sup) args (node.viewOf sup)
        | _, _ => []
    else select (index.catalog.constructors type) args (.reference type)
  | none => select (index.catalog.constructors type) args (.reference type)

def resolveInstance (name : String) (args : ArgTypes) (set : ConstraintSet)
    (type : Option StaticType) : List Resolution :=
  match index.receiverTypes set type with
  | none => []
  | some types =>
    index.completeFor set (types.toList.flatMap fun runtime =>
      Overload.select index.hierarchy (index.candidates runtime name) args
        (type.getD (.reference runtime)))

/-- The methods that a call of `name` may run, in the order of their signatures. -/
def resolve (name : String) (receiver : SiteReceiver) (args : ArgTypes) : List Resolution :=
  let select := Overload.select index.hierarchy
  Resolution.finish <|
    match receiver with
    | .constructor type => index.resolveConstructor type args
    | .super type =>
      match type.referenceName? with
      | some t => select (index.catalog.methodsNamed t name) args type
      | none => []
    | .static type => select (index.catalog.methodsNamed type name) args (.reference type)
    | .object set type => index.resolveInstance name args set type

/-- The methods that a reference to `name` may mean, whatever their parameters. -/
def resolveReference (name : String) (receiver : SiteReceiver) : List Resolution :=
  let unbound (methods : List Method) : List Resolution := methods.map (⟨·, ∅⟩)
  Resolution.finish <|
    match receiver with
    | .constructor type => unbound (index.catalog.constructors type)
    | .super type =>
      match type.referenceName? with
      | some t => unbound (index.catalog.methodsNamed t name)
      | none => []
    | .static type => unbound (index.catalog.methodsNamed type name)
    | .object set type =>
      match index.receiverTypes set type with
      | none => []
      | some types => index.completeFor set
          (types.toList.flatMap fun runtime => unbound (index.catalog.methodsNamed runtime name))

end TypeIndex

end JavaCallGraph
