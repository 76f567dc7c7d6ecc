import JavaCallGraph.Signature

/-!
# Call graphs

Edges from callers to callees, kept both ways. Adding an edge twice changes nothing, so that
graphs can be merged in any order.
-/

namespace JavaCallGraph

structure CallGraph where
  callees : SignatureMap SignatureSet := ∅
  callers : SignatureMap SignatureSet := ∅
  edgeCount : Nat := 0

/-- A caller and a callee. -/
abbrev Edge := Signature × Signature

namespace CallGraph

def empty : CallGraph := {}

variable (g : CallGraph)

def calleesOf (s : Signature) : SignatureSet := g.callees[s]?.getD ∅

def callersOf (s : Signature) : SignatureSet := g.callers[s]?.getD ∅

def contains (e : Edge) : Bool := (g.calleesOf e.1).contains e.2

/-- Adds `t` to the set of `s`. -/
def link (m : SignatureMap SignatureSet) (s t : Signature) : SignatureMap SignatureSet :=
  m.alter s fun set? => some ((set?.getD ∅).insert t)

def add (e : Edge) : CallGraph :=
  if g.contains e then g
  else ⟨link g.callees e.1 e.2, link g.callers e.2 e.1, g.edgeCount + 1⟩

def extend (edges : List Edge) : CallGraph := edges.foldl add g

def ofList (edges : List Edge) : CallGraph := empty.extend edges

/-- The edges of a set of callees for each caller, in order. -/
def edgesOf (adjacency : SignatureMap SignatureSet) : List Edge :=
  adjacency.toList.flatMap fun (s, callees) => callees.toList.map (s, ·)

def edges : List Edge := edgesOf g.callees

def merge (other : CallGraph) : CallGraph := g.extend other.edges

def isEmpty : Bool := g.edgeCount == 0

/-- Every signature at either end of an edge. -/
def nodes : SignatureSet := .ofList (g.callees.keys ++ g.callers.keys)

def callerCount : Nat := g.callees.size

end CallGraph

end JavaCallGraph
