import JavaCallGraph.ConstraintSet
import JavaCallGraph.Unit

/-!
# Values of expressions

What is known of the value of an expression: its static type, the classes of the objects it may
be, and whether the expression names a type or a part of a package name instead.
-/

namespace JavaCallGraph

inductive ValueKind where
  | object
  | type (name : String)
  | package (name : String)
  deriving DecidableEq, Repr, Inhabited

structure Value where
  /-- Lambdas, `null` and failed look-ups have none. -/
  type : Option StaticType := none
  set : ConstraintSet := .empty
  kind : ValueKind := .object

namespace Value

def unknown : Value := { set := .unknown }

def null : Value := {}

def ofType (type : StaticType) (set : ConstraintSet) : Value := { type := some type, set }

def ofPrimitive (p : Primitive) : Value := { type := some (.ofDescriptor (.primitive p)) }

def typeName (name : String) : Value := { type := some (.reference name), kind := .type name }

def packageName (name : String) : Value := { kind := .package name }

/-- An object of exactly the class `name`. -/
def ofClass (name : String) : Value := ofType (.reference name) (.exact name)

def primitive? (v : Value) : Option Primitive :=
  match v.type.map StaticType.desc with
  | some (.primitive p) => some p
  | some (.reference name) => Primitive.ofWrapper? name
  | _ => none

def isString (v : Value) : Bool :=
  (v.type >>= StaticType.referenceName?) == some Descriptor.stringName

/-- Either of two values; the first one's type goes before the second one's. -/
def orElse (v w : Value) : Value := { v with set := v.set ∪ w.set, type := v.type.or w.type }

end Value

namespace Literal

def className : String := "java.lang.Class"

def value : Literal → Value
  | string => .ofClass Descriptor.stringName
  | classObject => .ofClass className
  | null => .null
  | int => .ofPrimitive .int
  | long => .ofPrimitive .long
  | float => .ofPrimitive .float
  | double => .ofPrimitive .double
  | char => .ofPrimitive .char
  | boolean => .ofPrimitive .boolean

end Literal

/-- The type of an arithmetic or logical operation on two operands. -/
def Primitive.promote (a b : Primitive) : Primitive :=
  if a == .boolean && b == .boolean then .boolean
  else ([.double, .float, .long].find? fun wide => a == wide || b == wide).getD .int

namespace Value

def comparisons : List String := ["==", "!=", "<", ">", "<=", ">=", "&&", "||"]

def shifts : List String := ["<<", ">>", ">>>"]

def binary (op : String) (left right : Value) : Value :=
  if op == "+" && (left.isString || right.isString) then .ofClass Descriptor.stringName
  else if comparisons.contains op then .ofPrimitive .boolean
  else if shifts.contains op then
    match left.primitive? with
    | some .long => .ofPrimitive .long
    | some _ => .ofPrimitive .int
    | none => unknown
  else
    match left.primitive?, right.primitive? with
    | some a, some b => .ofPrimitive (a.promote b)
    | _, _ => unknown

end Value

end JavaCallGraph
