import JavaCallGraph.TypeNode

/-!
# Transitive subtypes

A work list spreads the known subtypes of each type to its supertypes, and puts a supertype back
on the list whenever its set has grown. Nothing is spread to the root class, of which every type
is a subtype. Each set can grow at most once per type, which bounds the number of steps.
-/

namespace JavaCallGraph

/-- Types by their qualified names. -/
abbrev TypeTable := NameMap TypeNode

namespace TypeTable

def supertypes (table : TypeTable) (name : String) : List String :=
  (table[name]?.map TypeNode.supertypes).getD []

end TypeTable

namespace NameMap

/-- The names listed under a key. -/
def namesOf (m : NameMap NameSet) (key : String) : NameSet := m[key]?.getD ∅

def addName (m : NameMap NameSet) (key name : String) : NameMap NameSet :=
  m.alter key fun names? => (names?.getD ∅).insert name

theorem mem_namesOf_addName {m : NameMap NameSet} {key name k n : String} :
    n ∈ namesOf (addName m key name) k ↔ (k = key ∧ n = name) ∨ n ∈ namesOf m k := by
  by_cases h : key = k
  · subst h
    simp [namesOf, addName]
    grind
  · simp [namesOf, addName, Std.ExtTreeMap.getElem?_alter, h, Ne.symm h]

/-- Lists under each key the names that are paired with it. -/
def ofPairs (pairs : List (String × String)) : NameMap NameSet :=
  pairs.foldl (fun m (key, name) => addName m key name) ∅

/-- The relation between keys and listed names, turned round. -/
def inverseOf (listed : List (String × NameSet)) : NameMap NameSet :=
  ofPairs (listed.flatMap fun (key, names) => names.toList.map (·, key))

def inverse (m : NameMap NameSet) : NameMap NameSet := inverseOf m.toList

end NameMap

namespace TypeTable

/-- The types that name each type as a direct supertype, from the nodes in some order. -/
def subtypesOf (stored : List (String × TypeNode)) : NameMap NameSet :=
  .ofPairs (stored.flatMap fun (name, node) => node.supertypes.map (·, name))

def subtypes (table : TypeTable) : NameMap NameSet := subtypesOf table.toList

end TypeTable

/-- The state of the work list: types whose sets are to be spread, and the sets. -/
structure Spread where
  work : List String
  below : NameMap NameSet

namespace Spread

/-- Adds the names carried by a type to the set of a supertype. -/
def carry (carried : NameSet) (s : Spread) (sup : String) : Spread :=
  let known := s.below.namesOf sup
  let grown := known ∪ carried
  if grown.size = known.size then s else ⟨sup :: s.work, s.below.insert sup grown⟩

/-- Spreads the set of one type. -/
def step (table : TypeTable) (name : String) (s : Spread) : Spread :=
  let carried := (s.below.namesOf name).insert name
  ((table.supertypes name).filter (· != Descriptor.objectName)).foldl (carry carried) s

def run (table : TypeTable) : Nat → Spread → Spread
  | 0, s => s
  | _ + 1, ⟨[], below⟩ => ⟨[], below⟩
  | limit + 1, ⟨name :: work, below⟩ => run table limit (step table name ⟨work, below⟩)

/-- Direct subtypes are known from the start, but for those of the root class. -/
def start (stored : List (String × TypeNode)) (work : List String) : Spread :=
  ⟨work, (TypeTable.subtypesOf stored).erase Descriptor.objectName⟩

/-- The number of steps that suffices for a work list of that length. -/
def limit (table : TypeTable) (work : List String) : Nat := work.length + table.size * table.size

end Spread

/-- The transitive subtypes of each type, by a work list that starts with `work`. -/
def TypeTable.descendantsFrom (table : TypeTable) (work : List String) : NameMap NameSet :=
  (Spread.run table (Spread.limit table work) (.start table.toList work)).below

end JavaCallGraph
