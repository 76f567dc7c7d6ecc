import JavaCallGraph.Pattern.Expr
import JavaCallGraph.Pattern.Size

/-!
# Sizes of patterns

How large the automata for an expression are. Counted repetitions are written out in them, so that a
short text can stand for a large pattern. What is too large is no pattern.
-/

namespace JavaCallGraph.Pattern

/-- How large an automaton may be. -/
def maxSize : Nat := 10 * 1024 * 1024

/-- What counts for the size of an expression and of those that it is part of. -/
structure Traits where
  size : Size
  /-- How few characters a match can have; nothing if there is no match. -/
  shortest : Option Nat
  /-- Every match is empty. -/
  isNarrow : Bool := false
  /-- A match begins only at the start of the text. -/
  startsText : Bool := false
  /-- A match ends only at the end of the text. -/
  stopsText : Bool := false

namespace Traits

def empty : Traits := { size := .both stateSize, shortest := some 0, isNarrow := true }

/-- A text has a state for each byte. -/
def text (cs : List Char) : Traits :=
  { size := .both (stateSize * (String.ofList cs).utf8ByteSize), shortest := some cs.length }

def set (s : CharSet) : Traits :=
  { size := setSize s, shortest := if s.ranges.isEmpty then none else some 1 }

def boundary (b : Boundary) : Traits :=
  { empty with startsText := b == .textStart, stopsText := b == .textStop }

/-- Only the automaton that reads forwards tells groups apart. -/
def group (t : Traits) : Traits := { t with size := t.size + ⟨2 * stateSize, 0⟩ }

/-- A sequence begins with its first part, and also with the next one if that is always empty. -/
def sequence (ts : List Traits) : Traits where
  size := .total (ts.map size)
  shortest := ts.foldl (fun n? t => do return (← n?) + (← t.shortest)) (some 0)
  isNarrow := ts.all isNarrow
  startsText := starts startsText ts
  stopsText := starts stopsText ts.reverse
where
  starts (test : Traits → Bool) : List Traits → Bool
    | [] => false
    | t :: rest => test t || t.isNarrow && starts test rest

/-- A choice whose branches have the given size, the branching included. -/
def choice (size : Size) (ts : List Traits) : Traits where
  size := size
  shortest := (ts.mapM shortest).bind List.min?
  isNarrow := ts.all isNarrow
  startsText := ts.all startsText
  stopsText := ts.all stopsText

/-- The size of a repetition of something of size `n`. -/
def repeatedSize (canBeEmpty : Bool) (least : Nat) (most : Option Nat) (n : Nat) : Nat :=
  match least, most with
  | 0, some 1 => branchSize 2 + n + stateSize
  | 0, none => if canBeEmpty then n + 2 * branchSize 2 + stateSize else branchSize 2 + n
  | least, none => least * n + branchSize 2
  | least, some most =>
    if least = most then least * n
    else
      let first := if least = 0 then stateSize else least * n
      first + stateSize + (most - least) * (branchSize 2 + n)

def repeated (t : Traits) (least : Nat) (most : Option Nat) : Traits where
  size := t.size.map (repeatedSize (!t.shortest.any (0 < ·)) least most)
  shortest := t.shortest.map (least * ·)
  isNarrow := t.isNarrow
  startsText := 0 < least && t.startsText
  stopsText := 0 < least && t.stopsText

end Traits

namespace Expr

def word? : Expr → Option (List UInt8)
  | text cs => some (String.ofList cs).toUTF8.toList
  | _ => none

/-- The size of a choice between expressions of the given sizes. Words share their beginnings. -/
def choiceSize (es : List Expr) (sizes : List Size) : Size :=
  match es.mapM word? with
  | some words =>
    let length := (words.map List.length).foldl max 0
    { forward := wordsSize length stateSize [words]
      backward := wordsSize length stateSize [words.map List.reverse] }
  | none => .both (branchSize es.length + stateSize) + .total sizes

/-- Looks up the traits of a set in a list of some that are known. -/
def setTraits (known : List (CharSet × Traits)) (s : CharSet) : Traits :=
  match known.lookup s with
  | some t => t
  | none => .set s

mutual

/-- The traits of an expression. The list has those of sets that are known, so that they need not be
found again at each place where a set occurs. -/
def traits (known : List (CharSet × Traits)) : Expr → Traits
  | empty => .empty
  | text cs => .text cs
  | set s => setTraits known s
  | boundary b => .boundary b
  | group e => (e.traits known).group
  | sequence es => .sequence (traitsAfter known [] es)
  | choice es =>
    let ts := traitsAfter known [] es
    .choice (choiceSize es (ts.map (·.size))) ts
  | repeated e least most _ => (e.traits known).repeated least most

/-- The traits of each of the expressions, after others, which come last first. -/
def traitsAfter (known : List (CharSet × Traits)) (before : List Traits) :
    List Expr → List Traits
  | [] => before.reverse
  | e :: es => traitsAfter known (e.traits known :: before) es

end

mutual

/-- Adds the sets that occur in an expression. -/
def addSets (sets : List CharSet) : Expr → List CharSet
  | set s => s :: sets
  | group e => e.addSets sets
  | sequence es => addAllSets sets es
  | choice es => addAllSets sets es
  | repeated e _ _ _ => e.addSets sets
  | _ => sets

def addAllSets (sets : List CharSet) : List Expr → List CharSet
  | [] => sets
  | e :: es => addAllSets (e.addSets sets) es

end

/-- The sizes of the automata for a search. A loop over all bytes comes first, unless a match must
begin where the search does. The match as a whole counts as a group. -/
def size (e : Expr) : Size :=
  let t := e.traits ((e.addSets []).eraseDups.map fun s => (s, .set s))
  let loop (fixed : Bool) :=
    if fixed then stateSize else branchSize 2 + stateSize + rangesSize 1
  t.group.size + ⟨loop t.startsText + stateSize, loop t.stopsText + stateSize⟩

/-- So many words are not looked for with these automata. -/
def manyWords : Nat := 3000

/-- A choice between very many words. -/
def isWordList : Expr → Bool
  | choice es => manyWords ≤ es.length && (es.mapM word?).isSome
  | _ => false

def fits (e : Expr) : Bool :=
  e.isWordList ||
    let size := e.size
    size.forward ≤ maxSize && size.backward ≤ maxSize

end Expr

end JavaCallGraph.Pattern
