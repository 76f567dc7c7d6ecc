import JavaCallGraph.Descriptor
import JavaCallGraph.Json.Reader

/-!
# Typed readings of JSON values

A record is written as an object, in which a field may not be repeated, or as an array with the
fields in their order. Fields that a reading does not know are skipped or refused. In a map the
last of several members of one name counts.
-/

namespace JavaCallGraph.Json

inductive Fault where
  | malformed
  | wrongKind (expected : String)
  | outOfRange
  | unknownField (name : String)
  | repeatedField (name : String)
  | missingField (name : String)
  | tooManyItems
  | badText (reason : String)
  deriving Repr

def Fault.message : Fault → String
  | malformed => "malformed JSON"
  | wrongKind expected => s!"expected {expected}"
  | outOfRange => "number out of range"
  | unknownField name => s!"unknown field '{name}'"
  | repeatedField name => s!"duplicate field '{name}'"
  | missingField name => s!"missing field '{name}'"
  | tooManyItems => "too many items"
  | badText reason => reason

abbrev Read (α : Type) := Json → Except Fault α

def parse (text : String) : Except Fault Json :=
  match parse? text with
  | some value => .ok value
  | none => .error .malformed

def asText : Read String
  | .string (some s) => .ok s
  | _ => .error (.wrongKind "a string")

def asBool : Read Bool
  | .bool b => .ok b
  | _ => .error (.wrongKind "a boolean")

/-- A whole number below `bound`. -/
def asNatural (bound : Nat) : Read Nat
  | .natural n => if n < bound then .ok n else .error .outOfRange
  | _ => .error (.wrongKind "a whole number")

def asOptional {α : Type} (read : Read α) : Read (Option α)
  | .null => .ok none
  | value => (read value).map some

def asList {α : Type} (read : Read α) : Read (List α)
  | .array items => items.mapM read
  | _ => .error (.wrongKind "an array")

def memberName : Option String → Except Fault String
  | some name => .ok name
  | none => .error (.wrongKind "a string")

/-- The members of an object as read, in their order and with repetitions. -/
def asMembers {α : Type} (read : Read α) : Read (List (String × α))
  | .object members => members.mapM fun (name, value) =>
    return (← memberName name, ← read value)
  | _ => .error (.wrongKind "an object")

def asMap {α : Type} (read : Read α) : Read (NameMap α)
  | value => (asMembers read value).map (·.foldl (fun map (name, v) => map.insert name v) ∅)

/-- One of several names, also written as an object with that one member and `null`. -/
def asVariant {α : Type} (variants : List (String × α)) (value : Json) : Except Fault α :=
  let named (name : String) : Except Fault α :=
    match variants.lookup name with
    | some v => .ok v
    | none => .error (.unknownField name)
  match value with
  | .string (some name) => named name
  | .object [(some name, .null)] => named name
  | _ => .error (.wrongKind "a name")

/-- The values that a record gives for its fields. -/
abbrev Fields := NameMap Json

/-- Adds a member to the fields read so far. -/
def addField (names : List String) (strict : Bool) (fields : Fields)
    (member : Option String × Json) : Except Fault Fields := do
  let name ← memberName member.1
  if names.contains name then
    if fields.contains name then .error (.repeatedField name)
    else return fields.insert name member.2
  else if strict then .error (.unknownField name)
  else return fields

/-- The fields of a record; a strict reading refuses unknown ones. -/
def asRecord (names : List String) (strict : Bool) : Read Fields
  | .object members => members.foldlM (addField names strict) ∅
  | .array items =>
    if items.length ≤ names.length then
      .ok ((names.zip items).foldl (fun fields (name, v) => fields.insert name v) ∅)
    else .error .tooManyItems
  | _ => .error (.wrongKind "an object")

namespace Fields

def getD {α : Type} (fields : Fields) (name : String) (read : Read α) (fallback : α) :
    Except Fault α :=
  match fields[name]? with
  | some value => read value
  | none => .ok fallback

def get {α : Type} (fields : Fields) (name : String) (read : Read α) : Except Fault α :=
  match fields[name]? with
  | some value => read value
  | none => .error (.missingField name)

end Fields

end JavaCallGraph.Json
