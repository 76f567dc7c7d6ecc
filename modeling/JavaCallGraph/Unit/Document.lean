import JavaCallGraph.Json.Shape
import JavaCallGraph.Unit.Lowering

/-!
# Tree documents

The concrete tree of a source as a JSON record: whether the source has syntax errors, and the nodes
in pre-order, each a list of its depth, kind, whether it is named, label, first byte, the byte
after its last, and line. A text among the nodes is a remark on the tree and stands for none.

The document does not list every token of the source. A token that the grammar does not name is
listed if it has a label, as operators do, or if it is one of the keywords `static`, `abstract`,
`private`, `default`, `public`, `super`, `this` and `new`. Brackets, separators, quotes and all
other keywords are left out.
-/

namespace JavaCallGraph

namespace Entry

open Json

/-- A truth value, or one and zero in its place. -/
def readMark : Read Bool
  | .bool b => .ok b
  | .natural n => .ok (n != 0)
  | _ => .error (.wrongKind "a boolean")

def ofJson : Read Entry
  | .array [depth, kind, named, label, start, stop, row] => do
    let position := asNatural UInt64.size
    return ⟨← position depth, ← asText kind, ← readMark named, ← asText label, ← position start,
      ← position stop, ← position row⟩
  | _ => .error (.wrongKind "an array")

/-- An entry, or none for a remark. -/
def ofJson? : Read (Option Entry)
  | .string _ => .ok none
  | value => some <$> ofJson value

end Entry

namespace CompilationUnit

/-- The unit of a source of which nothing could be read. -/
def unreadable (path : String) : CompilationUnit := ⟨path, none, [], [], true⟩

open Json in
/-- Reads a source with its tree document. -/
def readDocument (path content : String) : Read CompilationUnit := fun value => do
  let fields ← asRecord ["has_error", "nodes"] false value
  let hasErrors ← fields.get "has_error" Entry.readMark
  let entries ← fields.get "nodes" (asList Entry.ofJson?)
  match Tree.ofPreorder? content (entries.filterMap id) with
  | some tree => return ofTree path hasErrors tree
  | none => .error (.badText "a tree without nodes")

def ofDocument (path content : String) (document : Json) : CompilationUnit :=
  match readDocument path content document with
  | .ok unit => unit
  | .error _ => unreadable path

end CompilationUnit

end JavaCallGraph
