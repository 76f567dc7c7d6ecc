import JavaCallGraph.Pattern.Flags
import JavaCallGraph.Text.Digits

/-!
# Escapes and classes

What a backslash introduces in a pattern text, and classes in brackets. Classes can hold other
classes, and they can be joined by `&&`, `--` and `~~`, which bind weaker than what stands beside
each other and group to the left. Each class comes with its depth: how far its parts are nested.
-/

namespace JavaCallGraph.Pattern

/-! ### Escapes -/

/-- What a single character or an escape stands for. -/
inductive Atom where
  | char (c : Char)
  | set (s : CharSet)
  | boundary (e : Boundary)
  deriving DecidableEq, Repr

def charOfHex? (digits : List Char) : Option Char := do
  let n ← Text.hexadecimal? digits
  if n.isValidChar then some (.ofNat n) else none

/-- A character by its code point: just `width` digits, or any number of them in braces. Without
Unicode two digits stand for a byte, which is a character only if it is one of ASCII. -/
def takeHex (f : Flags) (width : Nat) (s : List Char) : Option (Atom × List Char) :=
  match f.skip s with
  | '\x7b' :: rest =>
    match f.takeMost Text.isHexDigit rest.length (f.skip rest) with
    | (digit :: digits, '\x7d' :: rest) =>
      (charOfHex? (digit :: digits)).map fun c => (.char c, f.skip rest)
    | _ => none
  | s => do
    let (digits, rest) := f.takeMost Text.isHexDigit width s
    let c ← charOfHex? digits
    if digits.length = width ∧ (f.unicode ∨ width ≠ 2 ∨ c.toNat < 0x80) then
      return (.char c, rest)
    else none

/-- The letters and hyphens of a word boundary's name. -/
def isBoundaryChar (c : Char) : Bool := c.isAlpha || c == '-'

/-- A word boundary, perhaps of a special kind that is named in braces. Other braces are left: they
count repetitions. -/
def takeBoundary (f : Flags) (s : List Char) : Option (Atom × List Char) :=
  match s with
  | '\x7b' :: rest =>
    match f.takeMost isBoundaryChar rest.length (f.skip rest) with
    | ([], []) => none
    | ([], _) => some (.boundary f.wordBoundary, s)
    | (name, '\x7d' :: rest) =>
      match String.ofList name with
      | "start" => some (.boundary f.wordStart, rest)
      | "end" => some (.boundary f.wordStop, rest)
      | "start-half" => some (.boundary f.wordStartHalf, rest)
      | "end-half" => some (.boundary f.wordStopHalf, rest)
      | _ => none
    | _ => none
  | s => some (.boundary f.wordBoundary, s)

/-- What follows a backslash. -/
def takeEscape (f : Flags) (s : List Char) : Option (Atom × List Char) :=
  match s with
  | [] => none
  | c :: rest =>
    let atom (a : Atom) := some (a, rest)
    match c with
    | 'x' => takeHex f 2 rest
    | 'u' => takeHex f 4 rest
    | 'U' => takeHex f 8 rest
    | 'd' => atom (.set f.digit)
    | 's' => atom (.set f.blank)
    | 'w' => atom (.set f.word)
    | 'D' => (f.complement? f.digit).bind fun set => atom (.set set)
    | 'S' => (f.complement? f.blank).bind fun set => atom (.set set)
    | 'W' => (f.complement? f.word).bind fun set => atom (.set set)
    | 'a' => atom (.char '\x07')
    | 'f' => atom (.char '\x0c')
    | 'n' => atom (.char '\n')
    | 'r' => atom (.char '\r')
    | 't' => atom (.char '\t')
    | 'v' => atom (.char '\x0b')
    | 'A' => atom (.boundary .textStart)
    | 'z' => atom (.boundary .textStop)
    | 'b' => takeBoundary f rest
    | 'B' => atom (.boundary (.neg f.wordBoundary))
    | '<' => atom (.boundary f.wordStart)
    | '>' => atom (.boundary f.wordStop)
    | c => if c.toNat < 0x80 && !c.isAlphanum then atom (.char c) else none

/-! ### Classes -/

inductive SetOperator where
  | inter
  | diff
  | symmDiff
  deriving DecidableEq, Repr

def SetOperator.apply : SetOperator → CharSet → CharSet → CharSet
  | inter => .inter
  | diff => .diff
  | symmDiff => .symmDiff

/-- A class or an item of a class with its depth. -/
structure Nested where
  set : CharSet
  depth : Nat := 0

/-- A class that is open. -/
structure OpenClass where
  negated : Bool
  /-- The operator before the last items, and what stands to its left. -/
  pending : Option (SetOperator × Nested) := none
  /-- The items after the last operator, the last one first. -/
  items : List Nested := []

namespace OpenClass

def add (o : OpenClass) (item : Nested) : OpenClass := { o with items := item :: o.items }

/-- The items after the last operator as one. -/
def union (o : OpenClass) : Nested :=
  match o.items with
  | [item] => item
  | items =>
    let depth := items.foldl (fun depth item => max depth (item.depth + 1)) 0
    ⟨.unions (items.reverse.map Nested.set), depth⟩

/-- All of the class up to here. -/
def value (o : OpenClass) : Nested :=
  match o.pending with
  | none => o.union
  | some (op, left) => ⟨op.apply left.set o.union.set, max left.depth o.union.depth + 1⟩

def operate (o : OpenClass) (op : SetOperator) : OpenClass :=
  { o with pending := some (op, o.value), items := [] }

def close? (f : Flags) (o : OpenClass) : Option Nested :=
  let value := o.value
  if o.negated then (f.complement? value.set).map fun set => ⟨set, value.depth + 1⟩
  else some ⟨value.set, value.depth + 1⟩

end OpenClass

/-- The start of a class after its opening bracket. Hyphens stand for themselves here, and so does
a closing bracket in the first place. -/
def openClass (f : Flags) (s : List Char) : OpenClass × List Char :=
  let (negated, s) := match f.skip s with
    | '^' :: rest => (true, f.skip rest)
    | s => (false, s)
  match f.takeMost (· == '-') s.length s, s with
  | ([], _), ']' :: rest => (⟨negated, none, [⟨.single ']', 0⟩]⟩, rest)
  | (hyphens, rest), _ => (⟨negated, none, hyphens.map fun c => ⟨.single c, 0⟩⟩, rest)

/-- A set of ASCII characters by its name, such as `[:alpha:]`, after the first bracket. -/
def takeNamed (f : Flags) (s : List Char) : Option (Option CharSet × List Char) :=
  match s with
  | ':' :: rest =>
    let (negated, rest) := match rest with
      | '^' :: rest => (true, rest)
      | rest => (false, rest)
    let name := rest.takeWhile (· != ':')
    match rest.drop name.length with
    | ':' :: ']' :: rest =>
      ((CharSet.named.find? (·.1 == String.ofList name)).map (·.2)).map fun set =>
        (if negated then f.complement? (f.fold set) else some (f.fold set), rest)
    | _ => none
  | _ => none

/-- A character or an escape in a class. -/
def takeAtom (f : Flags) (s : List Char) : Option (Atom × List Char) :=
  match s with
  | [] => none
  | '\\' :: rest => takeEscape f rest
  | c :: rest => some (.char c, rest)

/-- The characters from `lo` to `hi`, which are of ASCII if there is no Unicode. -/
def rangeSet? (f : Flags) (lo hi : Char) : Option CharSet :=
  if lo ≤ hi ∧ (f.unicode ∨ hi.toNat < 0x80) then some (f.fold (.range lo hi)) else none

def Atom.set? (f : Flags) : Atom → Option CharSet
  | char c => rangeSet? f c c
  | set s => some s
  | boundary _ => none

/-- A member of a class or a range of them. -/
def takeItem (f : Flags) (s : List Char) : Option (CharSet × List Char) := do
  let (first, rest) ← takeAtom f s
  match f.skip rest with
  | '-' :: after =>
    match f.skip after with
    | ']' :: _ => return (← first.set? f, '-' :: after)
    | '-' :: _ => return (← first.set? f, '-' :: after)
    | after =>
      match first, ← takeAtom f after with
      | .char lo, (.char hi, rest) => return (← rangeSet? f lo hi, rest)
      | _, _ => none
  | rest => return (← first.set? f, rest)

/-- Reads up to the end of the outermost of the open classes. One step for each character is
enough. -/
def closeClasses (f : Flags) :
    Nat → OpenClass → List OpenClass → List Char → Option (Nested × List Char)
  | 0, _, _, _ => none
  | fuel + 1, o, outer, s =>
    match f.skip s with
    | '[' :: rest =>
      match takeNamed f rest with
      | some (some set, rest) => closeClasses f fuel (o.add ⟨set, 0⟩) outer rest
      | some (none, _) => none
      | none =>
        let (inner, rest) := openClass f rest
        closeClasses f fuel inner (o :: outer) rest
    | ']' :: rest =>
      match o.close? f, outer with
      | none, _ => none
      | some closed, [] => some (closed, rest)
      | some closed, next :: outer => closeClasses f fuel (next.add closed) outer rest
    | '&' :: '&' :: rest => closeClasses f fuel (o.operate .inter) outer rest
    | '-' :: '-' :: rest => closeClasses f fuel (o.operate .diff) outer rest
    | '~' :: '~' :: rest => closeClasses f fuel (o.operate .symmDiff) outer rest
    | s =>
      match takeItem f s with
      | some (set, rest) => closeClasses f fuel (o.add ⟨set, 0⟩) outer rest
      | none => none

/-- A class after its opening bracket. -/
def takeClass (f : Flags) (s : List Char) : Option (Nested × List Char) :=
  let (o, rest) := openClass f s
  closeClasses f (s.length + 1) o [] rest

end JavaCallGraph.Pattern
