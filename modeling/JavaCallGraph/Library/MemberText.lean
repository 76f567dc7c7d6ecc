import JavaCallGraph.Library.TypeText
import JavaCallGraph.Text.Place
import JavaCallGraph.Text.Split
import JavaCallGraph.TypeNode

/-!
# Members written as text

A method is written `static <T> java.util.List<T> of(T...)`, with modifiers and type parameters
if it has any; a constructor has no result type and bears the simple name of its type. A field is
written `static int MAX_VALUE`.
-/

namespace JavaCallGraph

inductive LibraryFault where
  | typeText (fault : TypeTextFault) (text : String)
  | unbalancedAngle (text : String)
  | missingOpen (text : String)
  | missingClose (text : String)
  | missingName (text : String)
  | constructorName (name : String)
  | malformedField (text : String)
  /-- A part of the text was asked for that ends before it starts, or whose ends do not both fall
  between characters. Reading breaks off there. -/
  | uncuttable
  deriving Repr

def LibraryFault.reason : LibraryFault → String
  | typeText fault text => s!"{fault.reason} in type '{text}'"
  | unbalancedAngle text => s!"unbalanced '<' in '{text}'"
  | missingOpen text => s!"missing '(' in '{text}'"
  | missingClose text => s!"missing ')' in '{text}'"
  | missingName text => s!"missing method name in '{text}'"
  | constructorName name => s!"constructor '{name}' does not match its type"
  | malformedField text => s!"malformed field '{text}'"
  | uncuttable => "text cannot be cut"

namespace MemberText

open Text

def parseType (scope : List String) (s : List Char) : Except LibraryFault StaticType :=
  match TypeText.parse scope s with
  | .ok t => .ok t
  | .error e => .error (.typeText e (String.ofList s))

/-! ### Cutting -/

/-- The part of a text between two places. -/
def part (s : List Char) (start stop : Nat) : Except LibraryFault (List Char) :=
  match slice? s start stop with
  | some text => .ok text
  | none => .error .uncuttable

/-- The place of the angle bracket that closes the first one. -/
def closingAngle (s : List Char) (depth : Nat := 0) : Option Nat :=
  match s with
  | [] => none
  | c :: rest =>
    if c == '<' then (closingAngle rest (depth + 1)).map (c.utf8Size + ·)
    else if c == '>' then
      if depth == 0 then none
      else if depth == 1 then some 0
      else (closingAngle rest (depth - 1)).map (c.utf8Size + ·)
    else (closingAngle rest depth).map (c.utf8Size + ·)

/-- The parts between commas that stand outside angle brackets, `part` holding what the current
one has so far, the last first. The depth is a whole number without bounds. A count in 32 bits
agrees with it on all texts with less than `2 ^ 31` angle brackets. -/
def splitParts (depth : Int) (part : List Char) : List Char → List (List Char)
  | [] => [part.reverse]
  | c :: rest =>
    if c == ',' && depth == 0 then part.reverse :: splitParts depth [] rest
    else
      let depth := if c == '<' then depth + 1 else if c == '>' then depth - 1 else depth
      splitParts depth (c :: part) rest

/-- The parts between commas, trimmed, without the empty ones. -/
def splitTopLevel (s : List Char) : List (List Char) :=
  ((splitParts 0 [] s).map trim).filter (!·.isEmpty)

/-! ### Type parameters -/

def typeParamName (s : List Char) : List Char := (firstWord? s).getD s

/-- `T`, or `T extends Bound`; of several bounds the first counts. -/
def parseTypeParam (scope : List String) (s : List Char) : Except LibraryFault TypeParam := do
  let s := trim s
  let name := typeParamName s
  let rest ← part s (size name) (size s)
  match dropStart? "extends".toList (trim rest) with
  | none => return ⟨String.ofList name, none⟩
  | some bounds =>
    let bound ← parseType scope (bounds.takeWhile (· != '&'))
    return ⟨String.ofList name, some bound⟩

/-! ### Methods -/

structure Modifiers where
  isStatic : Bool := false
  isDefault : Bool := false
  isAbstract : Bool := false

theorem length_of_dropStart? {start s rest : List Char} (hs : start ≠ [])
    (h : dropStart? start s = some rest) : rest.length < s.length := by
  unfold dropStart? at h
  split at h
  · next hp =>
    have hlen := (List.isPrefixOf_iff_prefix.1 hp).length_le
    have hpos := List.length_pos_iff.2 hs
    simp only [Option.some.injEq] at h
    rw [← h, List.length_drop]
    omega
  · simp at h

theorem length_trimStart_lt {start s rest : List Char} (hs : start ≠ [])
    (h : dropStart? start s = some rest) : (trimStart rest).length < s.length :=
  Nat.lt_of_le_of_lt (TypeText.length_trimStart_le rest) (length_of_dropStart? hs h)

/-- Takes modifiers off the front. -/
def takeModifiers (m : Modifiers) (s : List Char) : Modifiers × List Char :=
  match _h : dropStart? "static ".toList s with
  | some rest => takeModifiers { m with isStatic := true } (trimStart rest)
  | none =>
    match _h : dropStart? "default ".toList s with
    | some rest => takeModifiers { m with isDefault := true } (trimStart rest)
    | none =>
      match _h : dropStart? "abstract ".toList s with
      | some rest => takeModifiers { m with isAbstract := true } (trimStart rest)
      | none => (m, s)
termination_by s.length
decreasing_by all_goals exact length_trimStart_lt (by decide) _h

/-- Takes a list of type parameters in angle brackets off the front, if there is one. -/
def takeTypeParams (text : String) (s : List Char) :
    Except LibraryFault (List (List Char) × List Char) :=
  match s with
  | '<' :: _ =>
    match closingAngle s with
    | none => .error (.unbalancedAngle text)
    | some closing => do
      let inner ← part s 1 closing
      let rest ← part s (closing + 1) (size s)
      return (splitTopLevel inner, trimStart rest)
  | s => .ok ([], s)

/-- Where the name at the end of a head starts: one byte after the last character that cannot be
in a name. -/
def nameStart (head : List Char) : Nat :=
  match findLast? (!isNameChar ·) head with
  | some i => i + 1
  | none => 0

/-- The head of a method: its result type, empty for a constructor, and its name. -/
def cutHead (text : String) (head : List Char) :
    Except LibraryFault (List Char × List Char) := do
  let name ← part head (nameStart head) (size head)
  if name.isEmpty then throw (.missingName text)
  else
    let ret ← part head 0 (nameStart head)
    return (trim ret, name)

/-- A parameter, and whether it takes any number of arguments. -/
def parseParam (scope : List String) (s : List Char) : Except LibraryFault (StaticType × Bool) :=
  match dropEnd? "...".toList s with
  | some element =>
    match parseType scope element with
    | .error e => .error e
    | .ok t => .ok (t.arrayOf, true)
  | none =>
    match parseType scope s with
    | .error e => .error e
    | .ok t => .ok (t, false)

/-- Result type, name and parameters of a method as written. -/
def cutMethod (text : String) (s : List Char) :
    Except LibraryFault (List Char × List Char × List Char) :=
  match find? (· == '(') s with
  | none => .error (.missingOpen text)
  | some opening =>
    match findLast? (· == ')') s with
    | none => .error (.missingClose text)
    | some closing => do
      let head ← part s 0 opening
      let (ret, name) ← cutHead text (trimEnd head)
      let params ← part s (opening + 1) closing
      return (ret, name, params)

def methodKind (m : Modifiers) : MethodKind :=
  if m.isStatic then .static else if m.isDefault then .default else .virtual

/-- Reads a method of the type `owner`. A method of an interface is abstract unless it is static
or a default method. -/
def parseMethod (owner : String) (ownerKind : TypeKind) (classScope : List String)
    (text : String) : Except LibraryFault Method := do
  let (modifiers, rest) := takeModifiers {} (trim text.toList)
  let (typeParamTexts, rest) ← takeTypeParams text rest
  let scope := classScope ++ typeParamTexts.map (String.ofList <| typeParamName ·)
  let typeParams ← typeParamTexts.mapM (parseTypeParam scope)
  let (retText, name, paramsText) ← cutMethod text rest
  let parsed ← (splitTopLevel paramsText).mapM (parseParam scope)
  let params := parsed.map (·.1)
  let isVarargs := (parsed.getLast?.map (·.2)).getD false
  let descriptors := params.map (·.desc)
  let name := String.ofList name
  if retText.isEmpty then
    if name != simpleName owner then throw (.constructorName name)
    return {
      signature := .constructor owner descriptors
      kind := .constructor
      isAbstract := modifiers.isAbstract
      isVarargs, typeParams, params
      ret := .void }
  else
    let ret ← parseType scope retText
    let kind := methodKind modifiers
    return {
      signature := ⟨owner, name, descriptors, ret.desc⟩
      kind
      isAbstract := modifiers.isAbstract || (ownerKind == .interface && kind == .virtual)
      isVarargs, typeParams, params, ret }

/-! ### Fields -/

def parseField (owner : String) (scope : List String) (text : String) :
    Except LibraryFault Field :=
  let s := trim text.toList
  let (isStatic, s) := match dropStart? "static ".toList s with
    | some rest => (true, trimStart rest)
    | none => (false, s)
  match cutLast isBlank s with
  | none => .error (.malformedField text)
  | some (typeText, name) =>
    match parseType scope typeText with
    | .error e => .error e
    | .ok type => .ok ⟨String.ofList name, owner, type, isStatic⟩

end MemberText

end JavaCallGraph
