import JavaCallGraph.FileTree
import JavaCallGraph.SourceSet.IgnoreRule

/-!
# Ignore files

The rules that a scan obeys stand in files of the directories that it comes through and of those
above its start. A directory has up to three of them: `.ignore`, `.gitignore` and the exclude file
of its repository. The rules of a nearer directory go before those of one farther out, and within
a repository the last two kinds hold no farther than the repository itself.
-/

namespace JavaCallGraph

/-! ### Directories of a scan -/

/-- A directory that a scan comes to: a path of it and the place that the path leads to. -/
structure ScanDir where
  path : String
  place : Place

namespace ScanDir

/-- What lies below a directory, with a path that continues the one of the directory. -/
def inner (dir : ScanDir) (names : List String) : ScanDir :=
  ⟨names.foldl FileTree.join dir.path, dir.place ++ names⟩

/-- What lies below a directory can be reached by its path, which may be too long for that. -/
def reaches (dir : ScanDir) (names : List String) : Bool := FileTree.isPath (dir.inner names).path

def bytes? (t : FileTree) (dir : ScanDir) (names : List String) : Option ByteArray :=
  if dir.reaches names then t.bytesAt? (dir.inner names).place else none

def has (t : FileTree) (dir : ScanDir) (name : String) : Bool :=
  dir.reaches [name] && t.existsAt (dir.inner [name]).place

/-- Drops a `./` at the start of a path, only one. -/
def dropHere (path : List Char) : List Char :=
  (Text.dropStart? ['.', '/'] path).getD path

/-- A path that names the working directory by dots between slashes. -/
def isHere (path : List Char) : Bool :=
  path.head? == some '.' && (String.ofList path |>.splitOn "/").all fun p => p == "" || p == "."

/-- A path below the start of a scan as the rules of a directory there see it. Up to two `./` at
the start of the path are left out, and one at the start of the directory's path. The rules then see
what follows the directory. Where the path does not start so, they see the whole path, and so do the
rules of the working directory. -/
def seenFrom (root : ScanDir) (dir below : List String) : String :=
  let dir := dropHere (root.inner dir).path.toList
  let path := dropHere (dropHere (root.inner below).path.toList)
  .ofList <|
    if isHere dir then path
    else
      match Text.dropStart? dir path with
      | some rest => (Text.dropStart? ['/'] rest).getD rest
      | none => path

end ScanDir

/-! ### Repositories -/

namespace Repository

/-- The first line of a file, which must be text. An empty file has none. -/
def firstLine? (bytes : ByteArray) : Option String :=
  if bytes.isEmpty then none
  else (IgnoreRule.linesOf [] bytes.toList).head?.bind fun line => Utf8.decode? ⟨line.toArray⟩

/-- The directory of a repository's data when `.git` is a file with the bytes `link`. The file names
a directory, in which a file `commondir` leads on to the data, by a path from there if it starts
with a dot. -/
def linkedDir? (t : FileTree) (link : ByteArray) : Option String := do
  let line ← firstLine? link
  let dir := String.ofList (← Text.dropStart? "gitdir: ".toList line.toList)
  let common ← firstLine? (← t.bytes? (FileTree.join dir "commondir"))
  return if common.front? == some '.' then FileTree.join dir common else common

/-- The exclude file of the repository in a directory. -/
def exclude? (t : FileTree) (dir : ScanDir) : Option ByteArray :=
  match dir.bytes? t [".git"] with
  | some link => linkedDir? t link >>= fun data => t.bytes? (FileTree.join data "info/exclude")
  | none => dir.bytes? t [".git", "info", "exclude"]

end Repository

/-! ### Rules of a directory -/

structure DirRules where
  ignore : List IgnoreRule
  gitIgnore : List IgnoreRule
  exclude : List IgnoreRule
  isRepository : Bool

namespace DirRules

def ofDir (t : FileTree) (dir : ScanDir) : DirRules :=
  let rules (bytes? : Option ByteArray) := (bytes?.map IgnoreRule.ofBytes).getD []
  { ignore := rules (dir.bytes? t [".ignore"])
    gitIgnore := rules (dir.bytes? t [".gitignore"])
    exclude := rules (Repository.exclude? t dir)
    isRepository := dir.has t ".git" || dir.has t ".jj" }

def isEmpty (d : DirRules) : Bool :=
  d.ignore.isEmpty && d.gitIgnore.isEmpty && d.exclude.isEmpty && !d.isRepository

/-- The rules of a directory with the path that they judge. -/
abbrev Layer := DirRules × String

/-- The layers up to the first repository. -/
def upToRepository : List Layer → List Layer
  | [] => []
  | l :: rest => if l.1.isRepository then [l] else l :: upToRepository rest

/-- The verdict of layers, the nearest directory first. -/
def verdict? (layers : List Layer) (isDir : Bool) : Option Bool :=
  let ask (rules : DirRules → List IgnoreRule) (layers : List Layer) :=
    layers.findSome? fun (d, path) => IgnoreRule.verdict? (rules d) path isDir
  let own := upToRepository layers
  ask ignore layers <|> ask gitIgnore own <|> ask exclude own

end DirRules

/-! ### Rules of a scan -/

structure ScanRules where
  root : ScanDir
  /-- The rules of the directories below the start, by the names that lead there from it. -/
  inside : Std.ExtTreeMap (List String) DirRules
  /-- The rules of the directories above the start with the names that lead from there to it, the
  nearest first. -/
  above : List (DirRules × List String)

namespace ScanRules

/-- The rules for a scan that comes through the directories `dirs` below its start. A repository is
not left at a directory above the start. -/
def ofTree (t : FileTree) (root : ScanDir) (dirs : List (List String)) : ScanRules where
  root := root
  inside := .ofList <| dirs.filterMap fun below =>
    let rules := DirRules.ofDir t (root.inner below)
    if rules.isEmpty then none else some (below, rules)
  above := (List.range root.place.length).reverse.map fun depth =>
    let rules := DirRules.ofDir t (ScanDir.inner ⟨".", []⟩ (root.place.take depth))
    ({ rules with isRepository := false }, root.place.drop depth)

/-- The rules on what lies below the start, those of the nearest directory first. -/
def layers (rules : ScanRules) (below : List String) : List DirRules.Layer :=
  let inside := (List.range below.length).reverse.filterMap fun depth =>
    let dir := below.take depth
    rules.inside[dir]?.map (·, rules.root.seenFrom dir below)
  inside ++ rules.above.map fun (found, names) => (found, "/".intercalate (names ++ below))

def verdict? (rules : ScanRules) (below : List String) (isDir : Bool) : Option Bool :=
  DirRules.verdict? (rules.layers below) isDir

end ScanRules

end JavaCallGraph
