import JavaCallGraph.Descriptor

/-!
# Static types

A static type is a descriptor with generic arguments. The arguments of an array belong to its
innermost element. Bindings map type variables to static types; substitution replaces the bound
variables at any depth.
-/

namespace JavaCallGraph

structure StaticType where
  desc : Descriptor
  args : List StaticType
  deriving Repr, Inhabited

namespace StaticType

def ofDescriptor (desc : Descriptor) : StaticType := ⟨desc, []⟩

def reference (name : String) : StaticType := ofDescriptor (.reference name)

def object : StaticType := ofDescriptor .object

def void : StaticType := ofDescriptor .void

def referenceName? (t : StaticType) : Option String := t.desc.referenceName?

def element? (t : StaticType) : Option StaticType := t.desc.element?.map (⟨·, t.args⟩)

def arrayOf (t : StaticType) : StaticType := ⟨.array t.desc, t.args⟩

def arrayOfRank (t : StaticType) : Nat → StaticType
  | 0 => t
  | n + 1 => (t.arrayOfRank n).arrayOf

end StaticType

abbrev Bindings := NameMap StaticType

namespace StaticType

/-- The type that takes the place of `desc`, given its arguments before and after substitution. A
bound variable loses its arguments to the type it is bound to. -/
def replace (bindings : Bindings) (args newArgs : List StaticType) : Descriptor → StaticType
  | .typeVar name => bindings[name]?.getD ⟨.typeVar name, args⟩
  | .array e => (replace bindings args newArgs e).arrayOf
  | d => ⟨d, newArgs⟩

mutual

/-- Replaces the type variables that `bindings` binds. -/
def substitute (bindings : Bindings) : StaticType → StaticType
  | ⟨desc, args⟩ => replace bindings args (substituteList bindings args) desc

def substituteList (bindings : Bindings) : List StaticType → List StaticType
  | [] => []
  | t :: ts => substitute bindings t :: substituteList bindings ts

end

theorem substituteList_eq_map (bindings : Bindings) (ts : List StaticType) :
    substituteList bindings ts = ts.map (substitute bindings) := by
  induction ts with
  | nil => rfl
  | cons t ts ih => simp [substituteList, ih]

end StaticType

end JavaCallGraph
