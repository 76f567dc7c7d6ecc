import JavaCallGraph.Json.Shape

/-!
# Figures of a run
-/

namespace JavaCallGraph

structure Stats where
  filesSeen : Nat := 0
  units : Nat := 0
  unitsFailed : Nat := 0
  types : Nat := 0
  bodies : Nat := 0
  roots : Nat := 0
  edges : Nat := 0
  elapsedMs : Nat := 0
  deriving DecidableEq, Repr, Inhabited

namespace Stats

def fieldNames : List String :=
  ["files_seen", "units", "units_failed", "types", "bodies", "roots", "edges", "elapsed_ms"]

def toJson (s : Stats) : Json :=
  .record [
    ("files_seen", .natural s.filesSeen), ("units", .natural s.units),
    ("units_failed", .natural s.unitsFailed), ("types", .natural s.types),
    ("bodies", .natural s.bodies), ("roots", .natural s.roots), ("edges", .natural s.edges),
    ("elapsed_ms", .natural s.elapsedMs)]

open Json in
/-- Figures that are not given are zero. -/
def ofJson : Read Stats := fun value => do
  let fields ← asRecord fieldNames false value
  let figure (name : String) : Except Fault Nat := fields.getD name (asNatural UInt64.size) 0
  return {
    filesSeen := ← figure "files_seen"
    units := ← figure "units"
    unitsFailed := ← figure "units_failed"
    types := ← figure "types"
    bodies := ← figure "bodies"
    roots := ← figure "roots"
    edges := ← figure "edges"
    elapsedMs := ← figure "elapsed_ms" }

end Stats

end JavaCallGraph
