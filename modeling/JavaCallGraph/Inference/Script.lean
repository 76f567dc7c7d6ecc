import JavaCallGraph.Inference.Summary

/-!
# Scripts

Walking a body asks questions about other bodies: what a method returns and what is written to a
field. A script is such a walk with its questions still open. Whoever has the answers runs it.
-/

namespace JavaCallGraph

inductive Question where
  /-- The classes of the objects that a method returns. -/
  | returnSet (m : Method)
  /-- The classes of the objects that are written to a field. -/
  | fieldSet (key : FieldKey)

/-- A computation that asks questions. The answer is a set, or nothing where it is not known. -/
inductive Script (α : Type) where
  | done (a : α)
  | ask (q : Question) (next : Option ConstraintSet → Script α)

namespace Script

variable {α β : Type}

def bind : Script α → (α → Script β) → Script β
  | done a, f => f a
  | ask q next, f => ask q fun answer => (next answer).bind f

instance : Monad Script where
  pure := done
  bind := bind

def question (q : Question) : Script (Option ConstraintSet) := ask q done

/-- Has `answer` answer the questions one after the other. -/
def run {m : Type → Type} [Monad m] (answer : Question → m (Option ConstraintSet)) :
    Script α → m α
  | done a => pure a
  | ask q next => do (next (← answer q)).run answer

end Script

end JavaCallGraph
