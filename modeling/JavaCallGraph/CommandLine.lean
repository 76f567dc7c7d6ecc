import JavaCallGraph.CommandLine.Arguments
import JavaCallGraph.Graph.Walk
import JavaCallGraph.Run

/-!
# The command line

Three commands: one analyses sources and writes an artifact, two list the callers and the callees
of a method by an artifact.
-/

namespace JavaCallGraph

structure AnalyzeArgs where
  config : Option String := none
  sourceRoot : Option String := none
  outputDir : Option String := none
  workers : Option Nat := none
  includes : List String := []
  excludes : List String := []
  library : Option String := none
  failOnCycle : Bool := false
  noMainRoots : Bool := false
  deriving DecidableEq, Repr, Inhabited

structure QueryArgs where
  signature : String
  graph : String
  depth : Nat := 1
  deriving DecidableEq, Repr, Inhabited

inductive Command where
  | analyze (args : AnalyzeArgs)
  | query (direction : Direction) (args : QueryArgs)
  deriving DecidableEq, Repr, Inhabited

namespace Command

/-! ### Reading -/

/-- Options that every command takes. -/
def globalOptions : List OptionSpec := [
  ⟨"log-level", none, .text, false⟩,
  ⟨"log-format", none, .oneOf ["text", "json"], false⟩,
  ⟨"help", some 'h', .ends .help, false⟩]

def topOptions : List OptionSpec := globalOptions ++ [⟨"version", some 'V', .ends .version, false⟩]

def analyzeOptions : List OptionSpec := globalOptions ++ [
  ⟨"config", some 'c', .path, false⟩,
  ⟨"source-root", some 'd', .path, false⟩,
  ⟨"output-dir", some 'o', .path, false⟩,
  ⟨"workers", some 'w', .count, false⟩,
  ⟨"include", none, .text, true⟩,
  ⟨"exclude", none, .text, true⟩,
  ⟨"library", none, .path, false⟩,
  ⟨"fail-on-cycle", none, .none, false⟩,
  ⟨"no-main-roots", none, .none, false⟩]

def queryOptions : List OptionSpec := globalOptions ++ [
  ⟨"graph", some 'g', .path, false⟩,
  ⟨"depth", none, .count, false⟩]

def count? (g : Given) (long : String) : Option Nat :=
  g.value? long >>= fun text => Config.parseCount? text.toList

def readAnalyze (args : List String) : Except Stop Command := do
  let (g, _) ← Given.read analyzeOptions 0 false args {}
  return .analyze {
    config := g.value? "config"
    sourceRoot := g.value? "source-root"
    outputDir := g.value? "output-dir"
    workers := count? g "workers"
    includes := g.values "include"
    excludes := g.values "exclude"
    library := g.value? "library"
    failOnCycle := g.has "fail-on-cycle"
    noMainRoots := g.has "no-main-roots" }

def readQuery (direction : Direction) (args : List String) : Except Stop Command := do
  let (g, _) ← Given.read queryOptions 1 false args {}
  match g.operands, g.value? "graph" with
  | [signature], some graph =>
    return .query direction { signature, graph, depth := (count? g "depth").getD 1 }
  | _, _ => .error .usage

def names : List String := ["analyze", "callers", "callees", "help"]

def parse (args : List String) : Except Stop Command := do
  let (_, rest) ← Given.read topOptions 0 true args {}
  match rest with
  | "analyze" :: rest => readAnalyze rest
  | "callers" :: rest => readQuery .callers rest
  | "callees" :: rest => readQuery .callees rest
  | ["help"] => .error .help
  | ["help", name] => .error (if names.contains name then .help else .usage)
  | _ => .error .usage

/-! ### Running -/

/-- The configuration of a run: its file, then the environment, then the options. -/
def AnalyzeArgs.configuration (args : AnalyzeArgs) (around : Surroundings) : Result Config := do
  let base ← match args.config with
    | some path => Config.ofFile around.files path
    | none => .ok {}
  let config ← base.applyEnv around.workers
  return {
    sourceRoot := args.sourceRoot.getD config.sourceRoot
    outputDir := args.outputDir.getD config.outputDir
    workers := args.workers.getD config.workers
    includes := config.includes ++ args.includes
    excludes := config.excludes ++ args.excludes
    librarySpec := args.library.or config.librarySpec
    cyclePolicy := if args.failOnCycle then .fail else config.cyclePolicy
    mainMethodsAsRoots := config.mainMethodsAsRoots && !args.noMainRoots }

/-- What a command prints, and the files after it. -/
structure Output where
  text : String
  files : FileTree
  /-- The artifact that was written. -/
  artifact : Option String := none

def lines (ls : List String) : String := String.join (ls.map (· ++ "\n"))

def run (c : Command) (around : Surroundings) : Result Output :=
  match c with
  | .analyze args => do
    let report ← (← AnalyzeArgs.configuration args around).run around
    return { text := lines [report.artifact], files := report.files, artifact := report.artifact }
  | .query direction args => do
    let start ← Signature.read args.signature
    let document ← Artifact.read around.files args.graph
    let entries := document.toGraph.walk start direction args.depth
    return {
      text := lines (entries.map fun e => toString e.depth ++ "\t" ++ e.target.encode)
      files := around.files }

end Command

/-- The name and version that the program gives of itself. -/
def versionText : String := "cgraph 0.1.0\n"

def usageText : String :=
  Command.lines [
    "Usage: cgraph [OPTIONS] <COMMAND>",
    "",
    "Commands:",
    "  analyze  Analyze a source tree and write callgraph-<unix>.json",
    "  callers  List methods that may call SIGNATURE",
    "  callees  List methods SIGNATURE may call",
    "  help     Print this message"]

end JavaCallGraph
