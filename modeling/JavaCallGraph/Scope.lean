import JavaCallGraph.Text.Split
import JavaCallGraph.Unit

/-!
# Names in scope

A type is written by a simple or a dotted name and known by its qualified name, in which dollar
signs divide nested types from the types around them. This module holds the names known to a run,
the imports of a unit, and the search that leads from the one to the other. A name that the search
does not find stays as written.
-/

namespace JavaCallGraph

/-! ### Nesting -/

/-- The texts before each dollar sign of a name, the longest first. The name is given backwards. -/
def enclosingNames : List Char → List String
  | [] => []
  | c :: front =>
    if c = '$' then String.ofList front.reverse :: enclosingNames front else enclosingNames front

/-- A type and the types around it, from the inside out: `p.A$B$1`, `p.A$B`, `p.A`. -/
def lexicalChain (name : String) : List String := name :: enclosingNames name.toList.reverse

/-- Every dot made a dollar sign. -/
def nestAll (s : List Char) : List Char := s.map fun c => if c = '.' then '$' else c

/-- The readings of a dotted name that take a part of it for nested types: all dots from some dot
on become dollar signs. The reading with the fewest nested types comes first. -/
def nestings : List Char → List (List Char)
  | [] => []
  | c :: cs => (nestings cs).map (c :: ·) ++ (if c = '.' then ['$' :: nestAll cs] else [])

theorem mem_nestings {s t : List Char} :
    t ∈ nestings s ↔ ∃ front rest, s = front ++ '.' :: rest ∧ t = front ++ '$' :: nestAll rest := by
  induction s generalizing t with
  | nil => simp [nestings]
  | cons c cs ih =>
    simp only [nestings, List.mem_append, List.mem_map]
    constructor
    · rintro (⟨u, hu, rfl⟩ | h)
      · obtain ⟨front, rest, rfl, rfl⟩ := ih.mp hu
        exact ⟨c :: front, rest, rfl, rfl⟩
      · split at h
        · next hc => exact ⟨[], cs, by simp [hc], by simpa using h⟩
        · simp at h
    · rintro ⟨front, rest, hs, rfl⟩
      cases front with
      | nil =>
        obtain ⟨rfl, rfl⟩ := List.cons.inj hs
        right
        simp
      | cons d front =>
        obtain ⟨rfl, rfl⟩ := List.cons.inj hs
        exact .inl ⟨_, ih.mpr ⟨front, rest, rfl, rfl⟩, rfl⟩

/-- The first of the readings that `isKnown` accepts. The characters before a dot come backwards,
and those after it with all their dots made dollar signs. -/
def findNesting? (isKnown : String → Bool) : (front rest : List Char) → Option String
  | [], _ => none
  | c :: front, rest =>
    if c = '.' then
      let reading := String.ofList (front.reverse ++ '$' :: rest)
      if isKnown reading then some reading else findNesting? isKnown front ('$' :: rest)
    else findNesting? isKnown front (c :: rest)

theorem findNesting?_concat (isKnown : String → Bool) (c : Char) (front rest : List Char) :
    findNesting? isKnown (front ++ [c]) rest =
      ((findNesting? (fun s => isKnown (.ofList (c :: s.toList))) front rest).map
        (fun s => .ofList (c :: s.toList))).or
      (findNesting? isKnown [c] (nestAll front.reverse ++ rest)) := by
  induction front generalizing rest with
  | nil => simp [findNesting?, nestAll]
  | cons d front ih =>
    rw [List.cons_append, findNesting?, findNesting?]
    by_cases hd : d = '.'
    · subst hd
      simp only [if_true, List.reverse_append, List.reverse_cons, List.reverse_nil, List.nil_append,
        List.cons_append, String.toList_ofList]
      split
      · simp
      · rw [ih]
        simp [nestAll]
    · simp only [hd, if_false]
      rw [ih]
      simp [nestAll, hd]

/-- The search goes through the readings in their order. -/
theorem findNesting?_reverse (isKnown : String → Bool) (s : List Char) :
    findNesting? isKnown s.reverse [] = ((nestings s).map .ofList).find? isKnown := by
  induction s generalizing isKnown with
  | nil => rfl
  | cons c cs ih =>
    rw [List.reverse_cons, findNesting?_concat, ih, nestings, List.map_append, List.find?_append]
    congr 1
    · simp [List.find?_map, Function.comp_def]
    · by_cases hc : c = '.'
      · by_cases hk : isKnown (.ofList ('$' :: nestAll cs)) <;> simp_all [findNesting?]
      · simp [findNesting?, hc]

/-! ### Known names -/

/-- The type names known to a run. -/
structure TypeNames where
  known : NameSet := ∅
  /-- The known names that end in a simple name, in the order they came in. -/
  bySimple : NameMap (List String) := ∅

namespace TypeNames

def insert (names : TypeNames) (name : String) : TypeNames :=
  if names.known.contains name then names
  else
    { known := names.known.insert name
      bySimple := names.bySimple.alter (simpleName name) fun same? => same?.getD [] ++ [name] }

def ofList (list : List String) : TypeNames := list.foldl insert {}

def contains (names : TypeNames) (name : String) : Bool := names.known.contains name

def size (names : TypeNames) : Nat := names.known.size

def find? (names : TypeNames) (name : String) : Option String :=
  if names.contains name then some name else none

/-- The one known name that ends in `simple`, if there is one and no other. -/
def uniqueSimple? (names : TypeNames) (simple : String) : Option String :=
  match names.bySimple[simple]? with
  | some [only] => some only
  | _ => none

/-- The first known reading of a dotted name: `a.b.Outer.Inner` is found as `a.b.Outer$Inner`. -/
def resolveDotted (names : TypeNames) (dotted : String) : Option String :=
  if names.contains dotted then some dotted
  else findNesting? names.contains dotted.toList.reverse []

end TypeNames

/-! ### Imports -/

/-- What the head of a unit brings into scope. -/
structure UnitScope where
  package : Option String := none
  /-- Types imported one by one: the path behind each simple name. The last import wins. -/
  single : NameMap String := ∅
  /-- Packages and types whose member types are imported. -/
  onDemand : List String := []
  /-- Static members imported one by one, with the type that has them. -/
  staticSingle : List (String × String) := []
  /-- Types whose static members are imported. -/
  staticOnDemand : List String := []

namespace UnitScope

def addImport (scope : UnitScope) (i : Import) : UnitScope :=
  match i.isStatic, i.isWildcard with
  | false, false =>
    let simple := ((Text.splitAtLast '.' i.path).map (·.2)).getD i.path
    { scope with single := scope.single.insert simple i.path }
  | false, true => { scope with onDemand := scope.onDemand ++ [i.path] }
  | true, false =>
    match Text.splitAtLast '.' i.path with
    | some (owner, member) =>
      { scope with staticSingle := scope.staticSingle ++ [(member, owner)] }
    | none => scope
  | true, true => { scope with staticOnDemand := scope.staticOnDemand ++ [i.path] }

def ofImports (package : Option String) (imports : List Import) : UnitScope :=
  imports.foldl addImport { package }

def ofUnit (unit : CompilationUnit) : UnitScope := ofImports unit.package unit.imports

variable (scope : UnitScope) (names : TypeNames) (current : Option String)

/-- A type of the lexical chain of `current` that is called `written`, or a member type of one. -/
def resolveNested (written : String) : Option String := do
  (lexicalChain (← current)).findSome? fun owner =>
    if simpleName owner == written then some owner else names.find? (owner ++ "$" ++ written)

def samePackage (written : String) : String :=
  match scope.package with
  | some package => package ++ "." ++ written
  | none => written

/-- The type that a name without dots stands for inside the type `current`. Nested types come
first, then single imports, the package, imports on demand, `java.lang`, and last a known type of
that simple name that is the only one. -/
def resolveSimple (written : String) : Option String :=
  resolveNested names current written
    <|> (scope.single[written]? >>= names.resolveDotted)
    <|> names.find? (scope.samePackage written)
    <|> scope.onDemand.findSome? (fun owner => names.resolveDotted (owner ++ "." ++ written))
    <|> names.find? ("java.lang." ++ written)
    <|> names.uniqueSimple? written

/-- The known type that a written name stands for, if any. -/
def resolveKnown (written : String) : Option String :=
  match Signature.splitAtFirst '.' written.toList with
  | none => scope.resolveSimple names current written
  | some (head, rest) =>
    (do
      let outer ← scope.resolveSimple names current (.ofList head)
      names.resolveDotted (outer ++ "." ++ .ofList rest))
    <|> names.resolveDotted written

/-- The type that a written name stands for. A name that is not known stays as it is imported or
written. -/
def resolveTypeName (written : String) : String :=
  (scope.resolveKnown names current written).getD (scope.single[written]?.getD written)

mutual

/-- The static type that a written type stands for, `vars` being the type variables in scope. -/
def bind (vars : List String) : TypeRef → StaticType
  | ⟨name, args, dims⟩ =>
    let base : StaticType :=
      match Primitive.ofKeyword? name with
      | some p => .ofDescriptor (.primitive p)
      | none =>
        if vars.contains name then .ofDescriptor (.typeVar name)
        else ⟨.reference (scope.resolveTypeName names current name), bindAll vars args⟩
    base.arrayOfRank dims

def bindAll (vars : List String) : List TypeRef → List StaticType
  | [] => []
  | t :: ts => bind vars t :: bindAll vars ts

end

/-- The types that a statically imported member may come from. -/
def staticOwners (member : String) : List String :=
  let singles := (scope.staticSingle.filter (·.1 == member)).filterMap fun (_, owner) =>
    names.resolveDotted owner
  (scope.staticOnDemand.filterMap names.resolveDotted).foldl
    (fun owners owner => if owners.contains owner then owners else owners ++ [owner]) singles

end UnitScope

end JavaCallGraph
