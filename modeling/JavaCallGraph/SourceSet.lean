import JavaCallGraph.Descriptor
import JavaCallGraph.Text.Digest

/-!
# Source sets

The sources of one run. A source whose content has been met before is left out, so that a copy of
a file counts once.
-/

namespace JavaCallGraph

structure SourceFile where
  /-- Relative to the root of the run. -/
  path : String
  content : String
  digest : String
  deriving DecidableEq, Repr, Inhabited

structure SourceSet where
  root : String
  files : List SourceFile
  /-- The number of sources before copies were left out. -/
  filesSeen : Nat

namespace SourceSet

/-- Adds a source unless there is one of that content, by its digest. -/
def addSource (acc : Array SourceFile × NameSet) (source : String × String) :
    Array SourceFile × NameSet :=
  let digest := Digest.ofText source.2
  if acc.2.contains digest then acc
  else (acc.1.push ⟨source.1, source.2, digest⟩, acc.2.insert digest)

/-- Sources by their paths and contents, in order. -/
def ofSources (root : String) (sources : List (String × String)) : SourceSet where
  root
  files := (sources.foldl addSource (#[], ∅)).1.toList
  filesSeen := sources.length

end SourceSet

end JavaCallGraph
