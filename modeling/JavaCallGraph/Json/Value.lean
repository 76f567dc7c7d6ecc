/-!
# JSON values

Members of an object keep their order, and repeated names are kept. A string may hold half of a
surrogate pair, which no text can; it can be skipped but not used, and is written `none`.
-/

namespace JavaCallGraph

inductive Json where
  | null
  | bool (value : Bool)
  /-- A number written with digits only. -/
  | natural (value : Nat)
  /-- A number with a sign, a fraction or an exponent. -/
  | otherNumber
  | string (text : Option String)
  | array (items : List Json)
  | object (members : List (Option String × Json))
  deriving Inhabited

namespace Json

def text (s : String) : Json := .string (some s)

def record (members : List (String × Json)) : Json :=
  .object (members.map fun (name, value) => (some name, value))

end Json

end JavaCallGraph
