import JavaCallGraph.Hierarchy

/-!
# Sets of runtime types

The classes of the objects that a place in the program may hold. A set is unresolved when it
stems from a declared type and not from the allocations that lead to the place.
-/

namespace JavaCallGraph

structure ConstraintSet where
  types : NameSet := ∅
  unresolved : Bool := false

namespace ConstraintSet

def empty : ConstraintSet := {}

/-- Nothing is known of the place. -/
def unknown : ConstraintSet := { unresolved := true }

def exact (name : String) : ConstraintSet := { types := {name} }

/-- The type `name` and all its subtypes. -/
def cone (h : Hierarchy) (name : String) : ConstraintSet := ⟨h.cone name, true⟩

def isEmpty (s : ConstraintSet) : Bool := s.types.isEmpty

/-- No object at all, and that for certain. -/
def isNever (s : ConstraintSet) : Bool := s.isEmpty && !s.unresolved

def union (s t : ConstraintSet) : ConstraintSet := ⟨s.types ∪ t.types, s.unresolved || t.unresolved⟩

instance : Union ConstraintSet := ⟨union⟩

@[simp] theorem types_union (s t : ConstraintSet) : (s ∪ t).types = s.types ∪ t.types := rfl

@[simp] theorem unresolved_union (s t : ConstraintSet) :
    (s ∪ t).unresolved = (s.unresolved || t.unresolved) := rfl

/-- Whether `t` has something that `s` has not. -/
def growsBy (s t : ConstraintSet) : Bool :=
  (s ∪ t).types.size != s.types.size || (s ∪ t).unresolved != s.unresolved

/-- The classes a place of a declared type may hold. -/
def ofType (h : Hierarchy) (t : StaticType) : ConstraintSet :=
  match t.desc with
  | .reference name => cone h name
  | .primitive _ => empty
  | .array _ => unknown
  | .typeVar _ => unknown

/-- The members of `s` that are subtypes of `target`, or everything below `target` if none is. -/
def narrow (h : Hierarchy) (s : ConstraintSet) (target : StaticType) : ConstraintSet :=
  match target.referenceName? with
  | none => unknown
  | some name =>
    let kept := s.types.filter fun t => h.isSubtype t name
    if kept.isEmpty then cone h name else ⟨kept, s.unresolved⟩

end ConstraintSet

end JavaCallGraph
