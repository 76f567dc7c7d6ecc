import JavaCallGraph.Catalog
import JavaCallGraph.Hierarchy.View

/-!
# Overload selection

Which of several methods of one name a call may mean, given the static types of its arguments.
Methods are first filtered by arity and by conversion of each argument to its parameter. Of those
left, a method stays unless another one is strictly more specific. An argument without a static
type fits every parameter.
-/

namespace JavaCallGraph

namespace Hierarchy

variable (h : Hierarchy)

/-- A type of which no declaration is known, so that it rules nothing out. -/
def isUndeclared (name : String) : Bool :=
  match h.get? name with
  | some node => node.origin == .dangling
  | none => true

/-- The reference types other than arrays that every array is assignable to. -/
def arraySupertypes : List String :=
  [Descriptor.objectName, "java.lang.Cloneable", "java.io.Serializable"]

/-- Conversion of an argument to a parameter: identity, widening, boxing and unboxing. -/
def assignable : Descriptor → Descriptor → Bool
  | .typeVar _, _ => true
  | _, .typeVar _ => true
  | .primitive a, .primitive b => a.widensTo b
  | .primitive a, .reference r => a.wrapper?.any fun boxed => h.isSubtype boxed r
  | .reference r, .primitive b => (Primitive.ofWrapper? r).any fun a => a.widensTo b
  | .reference a, .reference b => h.isSubtype a b || h.isUndeclared a || h.isUndeclared b
  | .array _, .reference r => arraySupertypes.contains r
  | .array (.primitive p), .array (.primitive q) => p == q
  | .array x, .array y => assignable x y
  | _, _ => false

def fits (arg : Option StaticType) (param : Descriptor) : Bool :=
  match arg with
  | some t => h.assignable t.desc param
  | none => true

end Hierarchy

/-- The static types of the arguments of a call, where they are known. -/
abbrev ArgTypes := List (Option StaticType)

/-- A method that a call may run, with the type variables that the call site binds. -/
structure Resolution where
  method : Method
  bindings : Bindings := ∅

namespace Method

def arityMatches (m : Method) (count : Nat) : Bool :=
  if m.isVarargs then m.arity ≤ count + 1 else count == m.arity

/-- The argument at place `i` of `count` arguments can be passed. From the last parameter of a
varargs method on, an argument is either the whole array, if it stands alone, or an element. -/
def accepts (h : Hierarchy) (m : Method) (bindings : Bindings) (count i : Nat)
    (arg : Option StaticType) : Bool :=
  if m.isVarargs && m.params.length - 1 ≤ i then
    match m.params.getLast? with
    | none => false
    | some last =>
      let array := last.substitute bindings
      (count == m.params.length && h.fits arg array.desc) ||
        array.element?.any fun e => h.fits arg e.desc
  else m.params[i]?.any fun p => h.fits arg (p.substitute bindings).desc

def applicable (h : Hierarchy) (m : Method) (args : ArgTypes) (bindings : Bindings) : Bool :=
  args.zipIdx.all fun (arg, i) => m.accepts h bindings args.length i arg

/-- Every parameter of `m` can be passed to `n`. -/
def moreSpecific (h : Hierarchy) (m n : Method) : Bool :=
  m.signature.params.length == n.signature.params.length &&
    (m.signature.params.zip n.signature.params).all fun (p, q) => h.assignable p q

def strictlyMoreSpecific (h : Hierarchy) (m n : Method) : Bool :=
  m.signature != n.signature && m.moreSpecific h n && !n.moreSpecific h m

end Method

namespace StaticType

/-- Takes the array brackets of `pattern` off both descriptors. -/
def peel : Descriptor → Descriptor → Option (Descriptor × Descriptor)
  | .array p, .array a => peel p a
  | .array _, _ => none
  | p, a => some (p, a)

/-- The type that a variable stands for when an argument of type `t` is passed: objects only. -/
def boxed? (t : StaticType) : Option StaticType :=
  match t.desc with
  | .primitive p => p.wrapper?.map reference
  | _ => some t

mutual

/-- Binds the variables of `vars` in `pattern` by what stands in their places in `actual`. The
first binding of a variable stays. -/
def unify (vars : List String) (bindings : Bindings) : StaticType → StaticType → Bindings
  | ⟨desc, args⟩, actual =>
    match peel desc actual.desc with
    | none => bindings
    | some (.typeVar name, a) =>
      if vars.contains name then
        match boxed? ⟨a, actual.args⟩ with
        | some bound => bindings.insertIfNew name bound
        | none => bindings
      else if args.length == actual.args.length then unifyAll vars bindings args actual.args
      else bindings
    | some _ =>
      if args.length == actual.args.length then unifyAll vars bindings args actual.args
      else bindings

def unifyAll (vars : List String) (bindings : Bindings) :
    List StaticType → List StaticType → Bindings
  | p :: ps, a :: as => unifyAll vars (unify vars bindings p a) ps as
  | _, _ => bindings

end

end StaticType

namespace Resolution

/-- Binds the type parameters of the method by the types of the arguments. -/
def infer (r : Resolution) (args : ArgTypes) : Resolution :=
  let vars := r.method.typeParams.map TypeParam.name
  if vars.isEmpty then r
  else
    let step (bindings : Bindings) : StaticType × Option StaticType → Bindings
      | (param, some actual) => param.unify vars bindings actual
      | (_, none) => bindings
    { r with bindings := (r.method.params.zip args).foldl step r.bindings }

end Resolution

namespace Overload

/-- The candidates that a call may mean, as seen through the receiver type `view`. -/
def applicable (h : Hierarchy) (candidates : List Method) (args : ArgTypes) (view : StaticType) :
    List Resolution :=
  (candidates.filter (·.arityMatches args.length)).filterMap fun m =>
    let bindings := h.view view m.declaring
    if m.applicable h args bindings then some ⟨m, bindings⟩ else none

/-- Leaves out what is strictly less specific than another resolution. -/
def mostSpecific (h : Hierarchy) (found : List Resolution) : List Resolution :=
  found.filter fun a => !found.any fun b => b.method.strictlyMoreSpecific h a.method

def select (h : Hierarchy) (candidates : List Method) (args : ArgTypes) (view : StaticType) :
    List Resolution :=
  (mostSpecific h (applicable h candidates args view)).map (·.infer args)

end Overload

end JavaCallGraph
