import JavaCallGraph.ConstraintSet

/-!
# Facts about bodies

What the rest of a program needs to know of one method body: the classes of the objects that it
returns, those of the objects that it writes to fields, and the methods that it may call.
-/

namespace JavaCallGraph

/-- A field, by the type that declares it. -/
structure FieldKey where
  declaring : String
  name : String
  deriving DecidableEq, Repr, Inhabited

namespace FieldKey

def ofField (f : Field) : FieldKey := ⟨f.declaring, f.name⟩

instance : Ord FieldKey := ⟨compareLex (compareOn declaring) (compareOn name)⟩

instance : Std.TransOrd FieldKey :=
  inferInstanceAs (Std.TransCmp (compareLex (compareOn declaring) (compareOn name)))

instance : Std.LawfulEqOrd FieldKey where
  eq_of_compare {a b} h := by
    have h' : (compareOn declaring a b).then (compareOn name a b) = .eq := h
    rw [Ordering.then_eq_eq] at h'
    obtain ⟨h₁, h₂⟩ := h'
    cases a
    cases b
    have e₁ := Std.LawfulEqOrd.eq_of_compare h₁
    have e₂ := Std.LawfulEqOrd.eq_of_compare h₂
    simp_all

end FieldKey

abbrev FieldMap (α : Type) := Std.ExtTreeMap FieldKey α

abbrev FieldSet := Std.ExtTreeSet FieldKey

structure BodySummary where
  /-- The objects that the body itself returns; what a lambda in it returns is left out. -/
  returns : ConstraintSet := .empty
  writes : FieldMap ConstraintSet := ∅
  callees : SignatureSet := ∅

namespace BodySummary

def addReturn (s : BodySummary) (set : ConstraintSet) : BodySummary :=
  { s with returns := s.returns ∪ set }

def addWrite (s : BodySummary) (key : FieldKey) (set : ConstraintSet) : BodySummary :=
  { s with writes := s.writes.alter key fun known? => some (known?.getD .empty ∪ set) }

def addCallees (s : BodySummary) (callees : List Signature) : BodySummary :=
  { s with callees := s.callees.insertMany callees }

end BodySummary

end JavaCallGraph
