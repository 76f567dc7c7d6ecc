import JavaCallGraph.Analysis
import JavaCallGraph.FileTree
import JavaCallGraph.Library.Builtin
import JavaCallGraph.Pattern.Reader
import JavaCallGraph.Text.Digits

/-!
# Configuration

What a run works on and how, from a JSON record with fields that may all be missing. The number of
workers can be overridden by the environment.
-/

namespace JavaCallGraph

structure Config where
  sourceRoot : String := "."
  outputDir : String := "cgraph-out"
  workers : Nat := 0
  /-- Patterns over paths below the source root. -/
  includes : List String := []
  excludes : List String := []
  /-- A library description that is added to the built-in one. -/
  librarySpec : Option String := none
  cyclePolicy : CyclePolicy := .degrade
  mainMethodsAsRoots : Bool := true
  deriving DecidableEq, Repr, Inhabited

namespace Config

/-! ### Reading -/

def fieldNames : List String :=
  ["source_root", "output_dir", "workers", "include", "exclude", "library_spec", "cycle_policy",
   "main_methods_as_roots"]

open Json in
def ofJson : Read Config := fun value => do
  let fields ← asRecord fieldNames true value
  let defaults : Config := {}
  return {
    sourceRoot := ← fields.getD "source_root" asText defaults.sourceRoot
    outputDir := ← fields.getD "output_dir" asText defaults.outputDir
    workers := ← fields.getD "workers" (asNatural UInt64.size) 0
    includes := ← fields.getD "include" (asList asText) []
    excludes := ← fields.getD "exclude" (asList asText) []
    librarySpec := ← fields.getD "library_spec" (asOptional asText) none
    cyclePolicy := ← fields.getD "cycle_policy"
      (asVariant [("degrade", .degrade), ("fail", .fail)]) .degrade
    mainMethodsAsRoots := ← fields.getD "main_methods_as_roots" asBool true }

def ofText (path text : String) : Result Config :=
  match Json.parse text >>= ofJson with
  | .ok config => .ok config
  | .error fault => .error (.configDocument path fault)

def ofFile (t : FileTree) (path : String) : Result Config := do ofText path (← t.readText path)

/-- A count in decimal digits, with or without a plus sign, below 2^64. -/
def parseCount? (text : List Char) : Option Nat :=
  let digits := match text with
    | '+' :: rest => rest
    | rest => rest
  if digits.isEmpty || !digits.all Char.isDigit then none
  else
    let n := Text.decimal digits
    if n < UInt64.size then some n else none

/-- Takes the number of workers from the environment, if it is set there. -/
def applyEnv (config : Config) (workers : Option String) : Result Config :=
  match workers with
  | none => .ok config
  | some raw =>
    let value := Text.trim raw.toList
    match parseCount? value with
    | some n => .ok { config with workers := n }
    | none => .error (.config (.workersVariable (.ofList value)))

/-! ### Use -/

def checkPattern (pattern : String) : Result Unit :=
  if (Pattern.parse? pattern.toList).isSome then .ok () else .error (.pattern pattern)

/-- Checks what can be checked before any source is read. -/
def validate (t : FileTree) (config : Config) : Result Unit := do
  if !t.exists? config.sourceRoot then .error (.sourceRootMissing config.sourceRoot)
  if !t.isDir config.sourceRoot then .error (.config (.rootNotDirectory config.sourceRoot))
  if config.outputDir.isEmpty then .error (.config .emptyOutputDir)
  if ConfigFault.maxWorkers < config.workers then .error (.config (.tooManyWorkers config.workers))
  (config.includes ++ config.excludes).forM checkPattern
  match config.librarySpec with
  | some path => if !t.isFile path then .error (.config (.libraryMissing path))
  | none => return

def options (config : Config) : AnalysisOptions :=
  ⟨config.workers, config.cyclePolicy, config.mainMethodsAsRoots⟩

/-- The built-in library with what the configuration adds to it. -/
def loadLibrary (t : FileTree) (config : Config) : Result Library := do
  match config.librarySpec with
  | none => return .builtin
  | some path =>
    match Json.parse (← t.readText path) >>= Library.ofJson with
    | .ok library => return Library.builtin.merge library
    | .error fault => .error (.libraryDocument path fault)

end Config

end JavaCallGraph
