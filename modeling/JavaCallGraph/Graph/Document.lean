import JavaCallGraph.Graph
import JavaCallGraph.Json.Writer
import JavaCallGraph.Stats
import JavaCallGraph.Text.Split

/-!
# Graph documents

The written form of the call graph of one run: a JSON record with the callees of every caller,
both by their encoded signatures and in the order of signatures.
-/

namespace JavaCallGraph

structure GraphDocument where
  schemaVersion : Nat
  /-- Seconds since the epoch. -/
  generatedAt : Nat
  sourceRoot : String
  stats : Stats
  graph : SignatureMap SignatureSet

namespace GraphDocument

def currentVersion : Nat := 1

def ofGraph (g : CallGraph) (sourceRoot : String) (stats : Stats) (generatedAt : Nat) :
    GraphDocument where
  schemaVersion := currentVersion
  generatedAt
  sourceRoot := Text.slashed sourceRoot
  stats
  graph := g.callees

def toGraph (d : GraphDocument) : CallGraph := .ofList (CallGraph.edgesOf d.graph)

/-! ### Writing -/

def signatureJson (s : Signature) : Json := .text s.encode

def graphJson (graph : SignatureMap SignatureSet) : Json :=
  .record (graph.toList.map fun (s, callees) =>
    (s.encode, .array (callees.toList.map signatureJson)))

def toJson (d : GraphDocument) : Json :=
  .record [
    ("schema_version", .natural d.schemaVersion), ("generated_at", .natural d.generatedAt),
    ("source_root", .text d.sourceRoot), ("stats", d.stats.toJson), ("graph", graphJson d.graph)]

def write (d : GraphDocument) : String := d.toJson.pretty

/-! ### Reading -/

open Json

def readSignature (text : String) : Except Fault Signature :=
  match Signature.decode text with
  | .ok s => .ok s
  | .error fault => .error (.badText fault.reason)

def readCallees : Read SignatureSet := fun value => do
  let texts ← asList asText value
  return .ofList (← texts.mapM readSignature)

/-- Of several entries for one caller the last one counts. -/
def readGraph : Read (SignatureMap SignatureSet) := fun value => do
  (← asMembers readCallees value).foldlM (fun graph (name, callees) =>
    return graph.insert (← readSignature name) callees) ∅

def fieldNames : List String := ["schema_version", "generated_at", "source_root", "stats", "graph"]

def ofJson : Read GraphDocument := fun value => do
  let fields ← asRecord fieldNames false value
  return {
    schemaVersion := ← fields.get "schema_version" (asNatural UInt32.size)
    generatedAt := ← fields.get "generated_at" (asNatural UInt64.size)
    sourceRoot := ← fields.get "source_root" asText
    stats := ← fields.get "stats" Stats.ofJson
    graph := ← fields.get "graph" readGraph }

def read (text : String) : Except Fault GraphDocument := do ofJson (← Json.parse text)

end GraphDocument

end JavaCallGraph
