import JavaCallGraph.CommandLine
import JavaCallGraph.Unit.Document

/-!
# The program

Takes in the working directory, runs the command that the arguments ask for and writes what comes
of it. The tree of a source `A.java` is read from the file `A.java.tree.json` beside it; a source
without one counts as one with syntax errors.
-/

namespace JavaCallGraph.CommandLine

/-- Reads the units of sources below `root` by the tree documents beside them. -/
def unitReader (files : FileTree) (root : String) : UnitReader := fun path content =>
  match files.readText (FileTree.join root path ++ ".tree.json") with
  | .ok text =>
    match Json.parse text with
    | .ok document => .ofDocument path content document
    | .error _ => .unreadable path
  | .error _ => .unreadable path

/-- The files and directories below the directory at `place`, which is found at `path`. -/
partial def takeIn (path : String) (place : Place) (t : FileTree) : IO FileTree := do
  let here ← IO.FS.realPath path
  let mut t := t
  for entry in ← here.readDir do
    let inner := place ++ [entry.fileName]
    if ← entry.path.isDir then
      t ← takeIn (path ++ "/" ++ entry.fileName) inner (t.put inner .dir)
    else
      t := t.put inner (.file (← IO.FS.readBinFile entry.path))
  return t

/-- Seconds since the epoch, by the clock of the file system. -/
def clock : IO Nat := do
  let (_, path) ← IO.FS.createTempFile
  let made ← path.metadata
  IO.FS.removeFile path
  return made.modified.sec.toNat

def surroundings : IO Surroundings := do
  let files ← takeIn "." [] {}
  return {
    files
    readUnit := unitReader files
    workers := ← IO.getEnv ConfigFault.workersName
    now := ← clock }

/-- Writes the artifact of a command where there is none yet. -/
def keep (dir : String) (out : Command.Output) : IO Unit := do
  match out.artifact with
  | none => return
  | some path =>
    IO.FS.createDirAll dir
    let file ← IO.FS.Handle.mk path .writeNew
    file.write ((out.files.bytes? path).getD .empty)

def run (args : List String) : IO UInt32 := do
  match Command.parse args with
  | .error .help => IO.print usageText; return 0
  | .error .version => IO.print versionText; return 0
  | .error .usage => IO.eprint usageText; return 2
  | .ok command =>
    match command.run (← surroundings) with
    | .error e => IO.eprintln ("Error: " ++ e.message); return 1
    | .ok out =>
      keep ((out.artifact.bind (Text.splitAtLast '/')).elim "." (·.1)) out
      IO.print out.text
      return 0

end JavaCallGraph.CommandLine

def main (args : List String) : IO UInt32 := JavaCallGraph.CommandLine.run args
