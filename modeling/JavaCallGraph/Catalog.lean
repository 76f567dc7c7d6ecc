import JavaCallGraph.Hierarchy

/-!
# Members of types

For each type its constructors, the methods and fields that can be seen in it, and the names of
methods that unrelated interfaces give competing bodies. A type sees what it declares and what it
inherits. A method of the class chain hides interface methods of its shape, and an interface hides
the methods of the interfaces that it extends.
-/

namespace JavaCallGraph

structure TypeMembers where
  constructors : List Method := []
  methods : List Method := []
  /-- Names of methods that several unrelated interfaces define. -/
  ambiguous : NameSet := ∅
  fields : List Field := []

namespace TypeMembers

def methodsNamed (t : TypeMembers) (name : String) : List Method :=
  t.methods.filter (·.name == name)

end TypeMembers

/-- The constructor of a source class that declares none. -/
def Method.defaultConstructor (type : String) : Method where
  signature := .constructor type []
  kind := .constructor
  isSynthetic := true
  params := []
  ret := .void

namespace TypeNode

def declaredMethods (n : TypeNode) : List Method := n.methods.filter (·.kind != .constructor)

def declaredConstructors (n : TypeNode) : List Method := n.methods.filter (·.kind == .constructor)

/-- Constructors that an expression can call. Enums have none to call. -/
def constructors (n : TypeNode) : List Method :=
  let declared := n.declaredConstructors
  if n.kind == .enum then []
  else if declared.isEmpty && n.origin == .source && n.kind != .interface then
    [.defaultConstructor n.name]
  else declared

end TypeNode

/-- Methods on their way into a type: those already visible, and those of interfaces that still
compete with one another. -/
structure Inheritance where
  visible : List Method
  candidates : List Method := []

namespace Inheritance

def shadows (methods : List Method) (m : Method) : Bool := methods.any (·.sameShape m)

/-- Takes over a method of the superclass. -/
def addFromClass (h : Hierarchy) (i : Inheritance) (m : Method) : Inheritance :=
  if m.isPrivate || shadows i.visible m then i
  else if h.isInterface m.declaring then { i with candidates := i.candidates ++ [m] }
  else { i with visible := i.visible ++ [m] }

theorem addFromClass_cases (h : Hierarchy) (i : Inheritance) (m : Method) :
    (m.isPrivate ∨ shadows i.visible m) ∧ addFromClass h i m = i ∨
      ¬ m.isPrivate ∧ ¬ shadows i.visible m ∧ h.isInterface m.declaring ∧
        addFromClass h i m = { i with candidates := i.candidates ++ [m] } ∨
      ¬ m.isPrivate ∧ ¬ shadows i.visible m ∧ ¬ h.isInterface m.declaring ∧
        addFromClass h i m = { i with visible := i.visible ++ [m] } := by
  unfold addFromClass
  split
  · next hskip => exact .inl ⟨by simpa using hskip, rfl⟩
  · next hskip =>
    rw [Bool.or_eq_true, not_or] at hskip
    split
    · next hinterface => exact .inr (.inl ⟨hskip.1, hskip.2, hinterface, rfl⟩)
    · next hclass => exact .inr (.inr ⟨hskip.1, hskip.2, hclass, rfl⟩)

/-- Leaves out the candidates that a visible method hides. -/
def settle (i : Inheritance) : Inheritance :=
  { i with candidates := i.candidates.filter fun c => !shadows i.visible c }

/-- Takes over a method of a superinterface. -/
def addFromInterface (i : Inheritance) (m : Method) : Inheritance :=
  if m.isPrivate || m.kind == .static || shadows i.visible m ||
      i.candidates.any (·.signature == m.signature) then i
  else { i with candidates := i.candidates ++ [m] }

theorem addFromInterface_cases (i : Inheritance) (m : Method) :
    (m.isPrivate ∨ m.kind = .static ∨ shadows i.visible m ∨
        i.candidates.any (·.signature == m.signature)) ∧ addFromInterface i m = i ∨
      ¬ m.isPrivate ∧ ¬ shadows i.visible m ∧ ¬ i.candidates.any (·.signature == m.signature) ∧
        addFromInterface i m = { i with candidates := i.candidates ++ [m] } := by
  unfold addFromInterface
  split
  · next hskip => exact .inl ⟨by simpa [or_assoc] using hskip, rfl⟩
  · next hskip =>
    exact .inr ⟨fun hm => hskip (by simp [hm]), fun hm => hskip (by simp [hm]),
      fun hm => hskip (by simp [hm]), rfl⟩

/-- Some other candidate of the same shape stems from a subtype. -/
def isMasked (h : Hierarchy) (candidates : List Method) (c : Method) : Bool :=
  candidates.any fun other =>
    other.signature != c.signature && other.sameShape c && other.declaring != c.declaring &&
      h.isSubtype other.declaring c.declaring

def survivors (h : Hierarchy) (i : Inheritance) : List Method :=
  i.candidates.filter fun c => !isMasked h i.candidates c

end Inheritance

/-- The names for which two methods of one shape are left, one of them with a body. -/
def conflicts : List Method → NameSet
  | [] => ∅
  | m :: rest =>
    if rest.any fun n => m.sameShape n && (!m.isAbstract || !n.isAbstract) then
      (conflicts rest).insert m.name
    else conflicts rest

abbrev MemberTable := NameMap TypeMembers

namespace MemberTable

def get (table : MemberTable) (type : String) : TypeMembers := table[type]?.getD {}

/-- What a type inherits, given the members of its supertypes. -/
def inheritance (h : Hierarchy) (table : MemberTable) (n : TypeNode) : Inheritance :=
  let fromClass := match n.superclass with
    | some sup => (table.get sup).methods
    | none => []
  let fromInterfaces := n.interfaces.flatMap fun sup => (table.get sup).methods
  let start : Inheritance := { visible := n.declaredMethods }
  fromInterfaces.foldl .addFromInterface (fromClass.foldl (Inheritance.addFromClass h) start).settle

theorem inheritance_eq (h : Hierarchy) (table : MemberTable) (n : TypeNode) :
    table.inheritance h n = (n.interfaces.flatMap fun sup => (table.get sup).methods).foldl
      Inheritance.addFromInterface
      ((n.superclass.toList.flatMap fun sup => (table.get sup).methods).foldl
        (Inheritance.addFromClass h) { visible := n.declaredMethods }).settle := by
  unfold inheritance
  cases n.superclass <;> simp

/-- The members of a type, given those of its supertypes. -/
def membersOf (h : Hierarchy) (table : MemberTable) (n : TypeNode) : TypeMembers :=
  let inherited := table.inheritance h n
  let survivors := inherited.survivors h
  { constructors := n.constructors
    methods := inherited.visible ++ survivors
    ambiguous := conflicts survivors
    fields := (n.supertypes.flatMap fun sup => (table.get sup).fields).foldl Field.putNew n.fields }

def add (h : Hierarchy) (table : MemberTable) (name : String) : MemberTable :=
  match h.get? name with
  | some node => table.insert name (table.membersOf h node)
  | none => table

/-- The members of all types, each computed after its supertypes. -/
def build (h : Hierarchy) (roots : List String) : MemberTable :=
  (h.supertypesFirst roots).foldl (add h) ∅

/-- The constructors and visible methods of some types by their signatures. Of those with one
signature the first counts. -/
def bySignature (table : MemberTable) (types : List String) : SignatureMap Method :=
  (types.flatMap fun type => (table.get type).constructors ++ (table.get type).methods).foldl
    (fun map m => map.insertIfNew m.signature m) ∅

end MemberTable

structure Catalog where
  members : MemberTable
  /-- Every constructor and visible method by its signature. -/
  bySignature : SignatureMap Method

namespace Catalog

/-- The catalog, by a search through the types that starts with `roots`, the signatures of the types
being put in as `listed` has them. -/
def buildFrom (h : Hierarchy) (roots listed : List String) : Catalog :=
  let members := MemberTable.build h roots
  { members, bySignature := members.bySignature listed }

/-- The types are searched in the order of their names. The order in which their signatures are put
in is open and here the same one; it matters only where a type has two methods of one signature. -/
def build (h : Hierarchy) : Catalog := buildFrom h h.nodes.keys h.nodes.keys

variable (c : Catalog)

def membersOf (type : String) : TypeMembers := c.members.get type

def constructors (type : String) : List Method := (c.membersOf type).constructors

def methodsNamed (type name : String) : List Method := (c.membersOf type).methodsNamed name

def hasMethodNamed (type name : String) : Bool := (c.membersOf type).methods.any (·.name == name)

def field? (type name : String) : Option Field := Field.find? (c.membersOf type).fields name

def isAmbiguous (type name : String) : Bool := (c.membersOf type).ambiguous.contains name

def method? (s : Signature) : Option Method := c.bySignature[s]?

def methodCount : Nat := c.bySignature.size

/-- Adds a method at the end unless there is one of its signature. -/
def addOverrider (found : List Method) (m : Method) : List Method :=
  if found.any (·.signature == m.signature) then found else found ++ [m]

/-- The methods of its shape that subtypes of the declaring type see, `m` itself included where it
is inherited. -/
def overriders (h : Hierarchy) (m : Method) : List Method :=
  ((h.descendants m.declaring).toList.flatMap fun sub =>
    (c.membersOf sub).methods.filter fun n => n.isDispatched && n.sameShape m).foldl addOverrider []

end Catalog

/-- All types of a run with their members. -/
structure TypeIndex where
  hierarchy : Hierarchy
  catalog : Catalog

namespace TypeIndex

def build (nodes : List TypeNode) (policy : CyclePolicy) : Result TypeIndex :=
  match Hierarchy.build nodes policy with
  | .ok hierarchy => .ok ⟨hierarchy, .build hierarchy⟩
  | .error e => .error e

end TypeIndex

end JavaCallGraph
