import JavaCallGraph.TypeNode

/-!
# Depth-first search through supertypes

The search walks from a type to its supertypes and keeps the path that it is on. It enters every
type once. An edge back to a type on the path closes a cycle, and the types from there on are
noted. A type is finished when all its supertypes have been tried, so that without cycles the
types finish supertypes first.
-/

namespace JavaCallGraph

namespace Search

/-- A type on the path, with its supertypes that are still to be tried. -/
structure Frame where
  name : String
  pending : List String

/-- The types on the path from its end back to `name`; none if `name` is not on the path. -/
def loopTo (name : String) (path : List Frame) : List String :=
  let names := path.map Frame.name
  if names.contains name then names.takeWhile (· != name) ++ [name] else []

def weight : List Frame → Nat
  | [] => 0
  | f :: path => f.pending.length + 1 + weight path

@[simp] theorem weight_cons (f : Frame) (path : List Frame) :
    weight (f :: path) = f.pending.length + 1 + weight path := rfl

end Search

structure Search where
  unvisited : NameSet
  /-- The end of the path comes first. -/
  path : List Search.Frame := []
  /-- The type finished last comes first. -/
  finished : List String := []
  cyclic : NameSet := ∅

namespace Search

/-- Follows the path to its end. `next` lists the supertypes of a type in the order of trial. -/
def run (next : String → List String) (s : Search) : Search :=
  match s with
  | ⟨_, [], _, _⟩ => s
  | ⟨unvisited, ⟨name, []⟩ :: path, finished, cyclic⟩ =>
    run next ⟨unvisited, path, name :: finished, cyclic⟩
  | ⟨unvisited, ⟨name, sup :: pending⟩ :: path, finished, cyclic⟩ =>
    let path := ⟨name, pending⟩ :: path
    if sup ∈ unvisited then
      run next ⟨unvisited.erase sup, ⟨sup, next sup⟩ :: path, finished, cyclic⟩
    else
      run next ⟨unvisited, path, finished, cyclic.insertMany (loopTo sup path)⟩
termination_by weight s.path + totalWeight (fun name => (next name).length + 1) s.unvisited
decreasing_by
  · simp only [weight_cons, List.length_nil]
    omega
  · next h =>
    rw [← totalWeight_erase h]
    simp only [weight_cons, List.length_cons]
    omega
  · simp only [weight_cons, List.length_cons]
    omega

/-- Starts at `root`, unless it has been visited. -/
def visit (next : String → List String) (s : Search) (root : String) : Search :=
  if root ∈ s.unvisited then
    run next { s with unvisited := s.unvisited.erase root, path := [⟨root, next root⟩] }
  else s

/-- Searches all of `names`, starting from `roots` in turn. -/
def all (next : String → List String) (names : NameSet) (roots : List String) : Search :=
  roots.foldl (visit next) { unvisited := names }

end Search

end JavaCallGraph
