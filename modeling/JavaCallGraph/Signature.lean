import JavaCallGraph.Descriptor

/-!
# Method signatures

A signature names one method: the declaring type, the method's name, its erased parameters and its
erased result. Signatures are the nodes of the call graph, so their text and their order are what
every answer shows.
-/

namespace JavaCallGraph

structure Signature where
  declaring : String
  name : String
  params : List Descriptor
  ret : Descriptor
  deriving DecidableEq, Repr, Inhabited

/-- The part of a qualified name after the last dot and the last dollar sign. -/
def simpleName (qualified : String) : String :=
  String.ofList (qualified.toList.reverse.takeWhile fun c => c != '.' && c != '$').reverse

namespace Signature

/-- A constructor bears the simple name of its type. -/
def constructor (declaring : String) (params : List Descriptor) : Signature :=
  ⟨declaring, simpleName declaring, params, .void⟩

def staticInit (declaring : String) : Signature := ⟨declaring, "<clinit>", [], .void⟩

def frameworkName : String := "<framework>"

/-- The caller of every method that the surrounding runtime starts. -/
def frameworkRoot : Signature := ⟨frameworkName, "root", [], .void⟩

def isFrameworkRoot (s : Signature) : Bool := s.declaring == frameworkName

/-! ### Written form -/

def toChars (s : Signature) : List Char :=
  s.declaring.toList ++ ':' :: (s.name.toList ++ '(' ::
    (s.params.flatMap Descriptor.toChars ++ ')' :: s.ret.toChars))

def encode (s : Signature) : String := String.ofList s.toChars

/-- Descriptors up to the closing parenthesis, and the text after it. -/
def takeParams (s : List Char) : Except SignatureFault (List Descriptor × List Char) :=
  match s with
  | [] => .error .missingClose
  | c :: cs =>
    if c == ')' then .ok ([], cs)
    else
      match _h : Descriptor.take (c :: cs) with
      | .error e => .error e
      | .ok (d, rest) =>
        match takeParams rest with
        | .error e => .error e
        | .ok (ds, rest) => .ok (d :: ds, rest)
termination_by s.length
decreasing_by exact Descriptor.length_of_take _h

/-- The text before the first `c` and the text after it. -/
def splitAtFirst (c : Char) (s : List Char) : Option (List Char × List Char) :=
  match s.dropWhile (· != c) with
  | [] => none
  | _ :: rest => some (s.takeWhile (· != c), rest)

def decodeChars (s : List Char) : Except SignatureFault Signature :=
  match splitAtFirst ':' s with
  | none => .error .missingColon
  | some ([], _) => .error .emptyDeclaring
  | some (declaring, rest) =>
    match splitAtFirst '(' rest with
    | none => .error .missingOpen
    | some ([], _) => .error .emptyMethodName
    | some (name, rest) =>
      match takeParams rest with
      | .error e => .error e
      | .ok (params, rest) =>
        match Descriptor.take rest with
        | .error e => .error e
        | .ok (ret, []) => .ok ⟨String.ofList declaring, String.ofList name, params, ret⟩
        | .ok (_, _ :: _) => .error .afterReturn

/-- Reads `declaring:name(params)ret`. -/
def decode (text : String) : Except SignatureFault Signature := decodeChars text.toList

/-! ### Order -/

/-- By declaring type, then name, parameters and result. -/
def cmp (a b : Signature) : Ordering :=
  (compare a.declaring b.declaring).then <| (compare a.name b.name).then <|
    (compare a.params b.params).then (compare a.ret b.ret)

instance : Ord Signature := ⟨cmp⟩

instance : Std.TransOrd Signature :=
  inferInstanceAs (Std.TransCmp (compareLex (compareOn declaring) (compareLex (compareOn name)
    (compareLex (compareOn params) (compareOn ret)))))

theorem eq_of_cmp_eq {a b : Signature} (h : cmp a b = .eq) : a = b := by
  cases a
  cases b
  simp_all [cmp, Ordering.then_eq_eq]

instance : Std.LawfulEqOrd Signature where
  eq_of_compare := eq_of_cmp_eq

end Signature

abbrev SignatureSet := Std.ExtTreeSet Signature

abbrev SignatureMap (α : Type) := Std.ExtTreeMap Signature α

/-- The signatures of a list in order, each once. -/
def Signature.sortUnique (signatures : List Signature) : List Signature :=
  (Std.ExtTreeSet.ofList signatures : SignatureSet).toList

end JavaCallGraph
