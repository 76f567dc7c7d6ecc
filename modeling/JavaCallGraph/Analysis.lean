import JavaCallGraph.Graph
import JavaCallGraph.Inference.Engine
import JavaCallGraph.Roots
import JavaCallGraph.SourceSet
import JavaCallGraph.Stats

/-!
# Analysis of a program

The call graph of a program: the edges out of every body, and an edge from the framework root to
every entry point. A unit with syntax errors declares its types, but its bodies contribute no
edges.
-/

namespace JavaCallGraph

structure AnalysisOptions where
  /-- Zero stands for as many as there are processors. The number changes no answer. -/
  workers : Nat := 0
  cyclePolicy : CyclePolicy := .degrade
  mainMethodsAsRoots : Bool := true
  deriving DecidableEq, Repr, Inhabited

/-- Turns the path and the content of a source into a compilation unit. -/
abbrev UnitReader := String → String → CompilationUnit

structure Outcome where
  graph : CallGraph
  stats : Stats

namespace Program

variable (p : Program)

/-- The edges out of the bodies of a list, by one engine. -/
def bodyEdges (bodies : List Signature) : StateM Engine (List Edge) :=
  return (← bodies.mapM fun s =>
    return (← Engine.callees p s).toList.map (s, ·)).flatten

/-- The edges out of the bodies of one unit. -/
def unitEdges (unit : Nat) : List Edge :=
  match p.units[unit]? with
  | none => []
  | some u =>
    if u.hasErrors then []
    else ((p.bodyEdges ((p.unitBodies unit).map (·.1))).run {}).1

/-- The call graph without its entry points. -/
def callEdges : CallGraph :=
  (List.range p.units.size).foldl (fun g unit => g.extend (p.unitEdges unit)) .empty

end Program

namespace Analysis

/-- Builds the call graph of compilation units. -/
def ofUnits (filesSeen : Nat) (units : List CompilationUnit) (library : Library)
    (options : AnalysisOptions) : Result Outcome := do
  let program ← Program.build units library options.cyclePolicy
  let roots := program.roots library.callbacks options.mainMethodsAsRoots
  let graph := program.callEdges.extend (roots.toList.map (Signature.frameworkRoot, ·))
  return {
    graph
    stats := {
      filesSeen
      units := units.length
      unitsFailed := units.countP (·.hasErrors)
      types := program.sourceTypeCount
      bodies := program.bodyCount
      roots := roots.size
      edges := graph.edgeCount } }

def ofSources (sources : SourceSet) (read : UnitReader) (library : Library)
    (options : AnalysisOptions) : Result Outcome :=
  ofUnits sources.filesSeen (sources.files.map fun f => read f.path f.content) library options

end Analysis

end JavaCallGraph
