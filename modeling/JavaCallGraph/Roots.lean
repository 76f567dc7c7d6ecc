import JavaCallGraph.Program

/-!
# Entry points

Bodies that the surrounding runtime starts: overriding methods that are listed as callbacks of a
supertype, static initializers and, if asked for, `main` methods.
-/

namespace JavaCallGraph

/-- `static void main(String[])`. -/
def Method.isMain (m : Method) : Bool :=
  m.kind == .static && m.name == "main" &&
    m.signature.params == [.array (.reference Descriptor.stringName)] && m.signature.ret.isVoid

namespace Program

variable (p : Program)

/-- The method has the shape of the method that `owner` lists. An owner that has no method of that
name matches by name alone. -/
def overridesListed (owner : String) (m : Method) : Bool :=
  let listed := p.catalog.methodsNamed owner m.name
  listed.isEmpty || listed.any (·.sameShape m)

def isCallback (callbacks : Callbacks) (node : TypeNode) (m : Method) : Bool :=
  m.kind != .static && m.kind != .constructor &&
    callbacks.toList.any fun (owner, names) =>
      p.hierarchy.isSubtype node.name owner && names.contains m.name && p.overridesListed owner m

/-- The entry points among the bodies of one type. -/
def rootsOf (callbacks : Callbacks) (withMain : Bool) (node : TypeNode) : List Signature :=
  let started := (node.methods.filter fun m =>
    (p.body? m.signature).isSome && (p.isCallback callbacks node m || withMain && m.isMain)).map
      Method.signature
  let staticInit := Signature.staticInit node.name
  if (p.body? staticInit).isSome then started ++ [staticInit] else started

def roots (callbacks : Callbacks) (withMain : Bool) : SignatureSet :=
  .ofList ((p.hierarchy.nodes.values.filter fun n => n.origin == .source).flatMap
    (p.rootsOf callbacks withMain))

end Program

end JavaCallGraph
