import JavaCallGraph.Pattern.Reader
import JavaCallGraph.SourceSet
import JavaCallGraph.SourceSet.IgnoreFiles
import JavaCallGraph.Text.Split

/-!
# Scanning for sources

A scan finds the Java files below a directory in the order of their places. Hidden names, build
output and what ignore files say are left out. The rules of `.ignore` files go before those of
`.gitignore` files, and any of these rules before the one on hidden names.
-/

namespace JavaCallGraph

namespace Scan

/-- Directories that hold no sources written by hand. -/
def skippedDirs : List String :=
  [".git", ".gradle", ".idea", "build", "target", "out", "bin", "generated", "generated-sources",
   "node_modules"]

def isHidden (name : String) : Bool := name.front? == some '.'

/-- Whether a scan leaves out the file or directory below its start. -/
def isSkipped (rules : ScanRules) (below : List String) (isDir : Bool) : Bool :=
  let name := below.getLastD ""
  (rules.verdict? below isDir).getD (isHidden name) || isDir && skippedDirs.contains name

/-- The part of a name after its last dot, unless that dot comes first. -/
def extension? (name : String) : Option String :=
  match Text.splitAtLast '.' name with
  | some ("", _) => none
  | some (_, ext) => some ext
  | none => none

def isSource (name : String) : Bool :=
  (extension? name).any fun ext => String.ofList (ext.toList.map Char.toLower) == "java"

/-- What lies below the start of a scan, by the names that lead to it. -/
def entriesBelow (t : FileTree) (root : Place) : List (List String × FileEntry) :=
  t.entries.toList.filterMap fun (place, entry) =>
    if root.isPrefixOf place && place != root then some (place.drop root.length, entry) else none

/-- The directories among entries. -/
def dirsOf (entries : List (List String × FileEntry)) : List (List String) :=
  entries.filterMap fun (below, entry) =>
    match entry with
    | .dir => some below
    | .file _ => none

/-- The files below the start of a scan that are neither left out nor in a directory that is. A file
whose path is too long cannot be read and is not there. -/
def visibleFiles (t : FileTree) (root : ScanDir) : List (List String × ByteArray) :=
  let entries := entriesBelow t root.place
  let dirs := dirsOf entries
  let rules := ScanRules.ofTree t root ([] :: dirs)
  let skippedDirs : Std.ExtTreeSet (List String) :=
    .ofList (dirs.filter (isSkipped rules · true))
  entries.filterMap fun (below, entry) =>
    match entry with
    | .dir => none
    | .file bytes =>
      let above := (List.range below.length).map (below.take ·)
      if root.reaches below && above.all (!skippedDirs.contains ·) &&
          !isSkipped rules below false then
        some (below, bytes)
      else none

/-- Reads the patterns that are not blank. -/
def compile (patterns : List String) : Result (List Pattern) :=
  ((patterns.map fun p => Text.trim p.toList).filter (!·.isEmpty)).mapM fun p =>
    match Pattern.parse? p with
    | some pattern => .ok pattern
    | none => .error (.pattern (.ofList p))

/-- A path matches one of `includes`, if there are any, and none of `excludes`. -/
def isWanted (includes excludes : List Pattern) (path : String) : Bool :=
  let path := path.toList
  (includes.isEmpty || includes.any (·.occursIn path)) && !excludes.any (·.occursIn path)

end Scan

namespace SourceSet

open Scan in
/-- The sources below the directory `root`. -/
def scan (t : FileTree) (root : String) (includes excludes : List String) : Result SourceSet := do
  match t.locate? root with
  | none => .error (.sourceRootMissing root)
  | some place =>
    if !t.isDirAt place then .error (.sourceRootMissing root)
    else
      let includes ← compile includes
      let excludes ← compile excludes
      let found := (visibleFiles t ⟨root, place⟩).filterMap fun (below, bytes) =>
        let path := Text.slashed ("/".intercalate below)
        if isSource (below.getLastD "") && isWanted includes excludes path then
          some (path, Utf8.decode bytes)
        else none
      let sources := ofSources root found
      if sources.files.isEmpty then .error (.noSourceFiles root) else return sources

end SourceSet

end JavaCallGraph
