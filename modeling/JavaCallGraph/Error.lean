import JavaCallGraph.Library.Spec

/-!
# Errors

What can stop a run, by cause, and the wording of each cause.
-/

namespace JavaCallGraph

inductive ConfigFault where
  | workersVariable (value : String)
  | rootNotDirectory (path : String)
  | emptyOutputDir
  | tooManyWorkers (count : Nat)
  | libraryMissing (path : String)
  | walkDirection (text : String)
  deriving Repr

namespace ConfigFault

def workersName : String := "CGRAPH_WORKERS"

/-- The most worker threads that may be asked for. -/
def maxWorkers : Nat := 512

def reason : ConfigFault → String
  | workersVariable value => s!"{workersName} must be a non-negative integer, got '{value}'"
  | rootNotDirectory path => s!"source_root is not a directory: {path}"
  | emptyOutputDir => "output_dir must not be empty"
  | tooManyWorkers count => s!"workers must be at most {maxWorkers}, got {count}"
  | libraryMissing path => s!"library_spec not found: {path}"
  | walkDirection text => s!"Invalid walk direction: {text}"

end ConfigFault

inductive Error where
  | config (fault : ConfigFault)
  | configDocument (path : String) (fault : Json.Fault)
  | sourceRootMissing (path : String)
  | noSourceFiles (path : String)
  /-- A text of a library description, with the type that it belongs to. -/
  | library (owner : Option String) (fault : LibraryFault)
  | libraryDocument (path : String) (fault : Json.Fault)
  | hierarchyCycle (types : List String)
  | signature (text : String) (fault : SignatureFault)
  | io (path : String) (reason : String)
  | json (fault : Json.Fault)
  | pattern (text : String)
  deriving Repr

def Error.message : Error → String
  | config fault => s!"Configuration error: {fault.reason}"
  | configDocument path fault => s!"Configuration error: {path}: {fault.message}"
  | sourceRootMissing path => s!"Source root does not exist: {path}"
  | noSourceFiles path => s!"No analyzable source files under {path}"
  | library (some owner) fault => s!"Library spec error: {owner}: {fault.reason}"
  | library none fault => s!"Library spec error: {fault.reason}"
  | libraryDocument path fault => s!"Library spec error: {path}: {fault.message}"
  | hierarchyCycle types => "Hierarchy cycle involving: " ++ ", ".intercalate types
  | signature text fault => s!"Invalid signature '{text}': {fault.reason}"
  | io path reason => s!"IO error: {path}: {reason}"
  | json fault => s!"JSON error: {fault.message}"
  | pattern text => s!"Invalid pattern: {text}"

abbrev Result (α : Type) := Except Error α

namespace Signature

/-- Reads a signature; the error names the text. -/
def read (text : String) : Result Signature :=
  match decode text with
  | .ok s => .ok s
  | .error fault => .error (.signature text fault)

end Signature

def Descriptor.read (text : String) : Result Descriptor :=
  match decode text with
  | .ok d => .ok d
  | .error fault => .error (.signature text fault)

def Library.nodes (library : Library) : Result (List TypeNode) :=
  match library.typeNodes with
  | .ok nodes => .ok nodes
  | .error e => .error (.library (some e.owner) e.fault)

end JavaCallGraph
