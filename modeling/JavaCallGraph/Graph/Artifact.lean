import JavaCallGraph.FileTree
import JavaCallGraph.Graph.Document

/-!
# Artifacts

A graph document is kept in a file that is named for the time of its making. A name that is taken
gets a number, so that no file is ever written over.
-/

namespace JavaCallGraph

namespace Artifact

/-- The highest number that a name can get. -/
def maxSuffix : Nat := 1000

def name (generatedAt suffix : Nat) : String :=
  if suffix = 0 then s!"callgraph-{generatedAt}.json" else s!"callgraph-{generatedAt}-{suffix}.json"

/-- The first name for a time that is not taken in a directory. -/
def freeName? (t : FileTree) (dir : Place) (generatedAt : Nat) : Option String :=
  ((List.range (maxSuffix + 1)).map (name generatedAt)).find? fun n => !t.existsAt (dir ++ [n])

/-- Writes a document to a new file below `dir` and tells its path. The directories that were made
for it stay, even if the file cannot be written. -/
def write (t : FileTree) (dir : String) (d : GraphDocument) : FileTree × Result String :=
  match t.createDirAll dir with
  | (t, .error e) => (t, .error e)
  | (t, .ok place) =>
    match freeName? t place d.generatedAt with
    | none => (t, .error (.io dir s!"too many artifacts for timestamp {d.generatedAt}"))
    | some n =>
      let path := FileTree.join dir n
      if FileTree.isPath path then (t.put (place ++ [n]) (.file d.write.toUTF8), .ok path)
      else (t, .error (.io path "the path is too long"))

def read (t : FileTree) (path : String) : Result GraphDocument := do
  match GraphDocument.read (← t.readText path) with
  | .ok d => return d
  | .error fault => .error (.json fault)

end Artifact

end JavaCallGraph
