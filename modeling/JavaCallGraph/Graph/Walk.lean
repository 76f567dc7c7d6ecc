import JavaCallGraph.Error
import JavaCallGraph.Graph

/-!
# Walks through a call graph

A walk goes breadth first from one signature, along the calls or against them, and reports every
other signature once, at its smallest distance. It goes a bounded number of steps far and stops
when it has seen very many signatures. Reachability from the framework root has no such bounds.

The walk is done level by level, and what the root leads to is taken from the front of a work list.
Searches with a queue come to the same results (`Proofs/WalkQueue`).
-/

namespace JavaCallGraph

inductive Direction where
  | callers | callees
  deriving DecidableEq, Repr, Inhabited

namespace Direction

def parse (text : String) : Result Direction :=
  match text with
  | "callers" => .ok callers
  | "callees" => .ok callees
  | _ => .error (.config (.walkDirection text))

end Direction

structure WalkEntry where
  source : Signature
  target : Signature
  depth : Nat
  deriving DecidableEq, Repr, Inhabited

namespace CallGraph

def maxWalkDepth : Nat := 16

def maxVisited : Nat := 20000

def maxEntries : Nat := 50000

def clampDepth (depth : Nat) : Nat := min (max depth 1) maxWalkDepth

variable (g : CallGraph)

def neighbours (direction : Direction) (s : Signature) : SignatureSet :=
  match direction with
  | .callees => g.calleesOf s
  | .callers => g.callersOf s

/-- The signatures seen so far, and the reports on them in order. -/
structure Progress where
  visited : SignatureSet
  entries : Array WalkEntry := #[]

namespace Progress

def isFull (p : Progress) : Bool :=
  maxEntries ≤ p.entries.size || maxVisited ≤ p.visited.size

/-- Reports a neighbour unless it has been seen or the walk is to stop. -/
def visit (stop : Progress → Bool) (depth : Nat) (source : Signature) (p : Progress)
    (target : Signature) : Progress :=
  if stop p || p.visited.contains target then p
  else ⟨p.visited.insert target, p.entries.push ⟨source, target, depth⟩⟩

end Progress

/-- Visits the neighbours of all signatures of one level. -/
def walkLevel (stop : Progress → Bool) (direction : Direction) (depth : Nat)
    (level : List Signature) (p : Progress) : Progress :=
  level.foldl (fun p s => (g.neighbours direction s).toList.foldl (.visit stop depth s) p) p

/-- Walks `steps` levels further, the last one being at `depth`. -/
def walkFrom (stop : Progress → Bool) (direction : Direction) :
    (steps depth : Nat) → List Signature → Progress → Progress
  | 0, _, _, p => p
  | steps + 1, depth, level, p =>
    let next := g.walkLevel stop direction (depth + 1) level p
    let fresh := (next.entries.toList.drop p.entries.size).map WalkEntry.target
    walkFrom stop direction steps (depth + 1) fresh next

/-- The walk that reports nothing more once `stop` holds. -/
def walkUntil (stop : Progress → Bool) (start : Signature) (direction : Direction)
    (maxDepth : Nat) : List WalkEntry :=
  (g.walkFrom stop direction (clampDepth maxDepth) 0 [start] { visited := {start} }).entries.toList

def walk (start : Signature) (direction : Direction) (maxDepth : Nat) : List WalkEntry :=
  g.walkUntil Progress.isFull start direction maxDepth

/-! ### Reachability -/

/-- Moves what the work list leads to from `unseen` to `seen`. -/
def reach (unseen : SignatureSet) (work : List Signature) (seen : SignatureSet) : SignatureSet :=
  match work with
  | [] => seen
  | s :: work =>
    if s ∈ unseen then reach (unseen.erase s) ((g.calleesOf s).toList ++ work) (seen.insert s)
    else reach unseen work seen
termination_by (unseen.size, work.length)
decreasing_by
  · exact .left _ _ (size_erase_lt (by assumption))
  · exact .right _ (by simp)

/-- What the framework root leads to by one or more calls. -/
def reachable : SignatureSet :=
  g.reach g.nodes (g.calleesOf Signature.frameworkRoot).toList ∅

/-- The candidates that are not reachable, in order. The root itself is no candidate. -/
def unreachable (candidates : List Signature) : List Signature :=
  let reached := g.reachable
  Signature.sortUnique (candidates.filter fun s => !s.isFrameworkRoot && !reached.contains s)

end CallGraph

end JavaCallGraph
