import JavaCallGraph.Config
import JavaCallGraph.Graph.Artifact
import JavaCallGraph.SourceSet.Scan

/-!
# Runs

A run finds the sources that a configuration asks for, analyses them and writes the call graph to
an artifact.
-/

namespace JavaCallGraph

/-- What a run finds around it. -/
structure Surroundings where
  files : FileTree
  /-- Reads a source below the root of the run: root, path and content. -/
  readUnit : String → UnitReader
  /-- The number of workers that the environment asks for, as written there. -/
  workers : Option String := none
  /-- Seconds since the epoch. -/
  now : Nat

structure RunReport where
  artifact : String
  stats : Stats
  /-- The files after the run. -/
  files : FileTree

def Config.run (config : Config) (around : Surroundings) : Result RunReport := do
  config.validate around.files
  let sources ← SourceSet.scan around.files config.sourceRoot config.includes config.excludes
  let library ← config.loadLibrary around.files
  let reader := around.readUnit config.sourceRoot
  let outcome ← Analysis.ofSources sources reader library config.options
  let document := GraphDocument.ofGraph outcome.graph config.sourceRoot outcome.stats around.now
  let (files, written) := Artifact.write around.files config.outputDir document
  return { artifact := ← written, stats := outcome.stats, files }

end JavaCallGraph
