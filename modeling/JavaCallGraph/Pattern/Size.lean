import JavaCallGraph.Pattern.CodeRange

/-!
# Sizes of automata

A search for a pattern needs two automata that read the bytes of a text: one finds where a match
ends, and the other, which reads backwards, finds where it begins. Their sizes are counted in bytes.
A state takes 32 of them, a range of bytes in a state that has a list of ranges takes 8 more, and a
way on from a branching 4 more. This module counts the states for sets of characters and for choices
between words.
-/

namespace JavaCallGraph.Pattern

def stateSize : Nat := 32

/-- A state with a list of `n` ranges of bytes. -/
def rangesSize (n : Nat) : Nat := stateSize + 8 * n

/-- A state that branches in `n` ways. -/
def branchSize (n : Nat) : Nat := stateSize + 4 * n

/-- The sizes of the two automata. -/
structure Size where
  forward : Nat
  backward : Nat
  deriving DecidableEq, Repr

namespace Size

def both (n : Nat) : Size := ⟨n, n⟩

def map (f : Nat → Nat) (s : Size) : Size := ⟨f s.forward, f s.backward⟩

instance : Add Size := ⟨fun a b => ⟨a.forward + b.forward, a.backward + b.backward⟩⟩

def total (sizes : List Size) : Size := sizes.foldl (· + ·) (.both 0)

end Size

/-! ### Sets -/

section Sets

open CodeRange

/-- What can follow at each place of forms, the beginning included. -/
def followSets : (length : Nat) → List Form → List (List Form)
  | 0, _ => []
  | length + 1, forms =>
    if forms.all List.isEmpty then []
    else forms :: (groups forms).flatMap fun (_, tails) => followSets length tails

/-- How many different beginnings forms have. -/
def startCount : (length : Nat) → List Form → Nat
  | 0, _ => 0
  | length + 1, forms =>
    (groups forms).foldl (fun n (_, tails) => n + 1 + startCount length tails) 0

/-- The states for characters in one of the given forms. Forwards, places after which the same can
follow are one state. Backwards, the forms are branches of their own up to a common beginning. -/
def formsSize (forms : List Form) : Size where
  forward := (followSets 4 forms).eraseDups.foldl
    (fun n follow => n + rangesSize (groups follow).length) stateSize
  backward := branchSize forms.length + stateSize + stateSize * startCount 4 forms

end Sets

/-- A set of characters of ASCII is one state with a list of ranges. -/
def setSize (s : CharSet) : Size :=
  let ranges := s.ranges
  if ranges.all (·.2 < 0x80) then .both (stateSize + rangesSize ranges.length)
  else formsSize (ranges.flatMap CodeRange.forms)

/-! ### Words -/

/-- Words by their first bytes, up to the end of a word. -/
abbrev Chunk := List (UInt8 × List (List UInt8))

namespace Chunk

def add (byte : UInt8) (tail : List UInt8) : Chunk → Chunk
  | [] => [(byte, [tail])]
  | (b, tails) :: rest =>
    if b = byte then (b, tail :: tails) :: rest else (b, tails) :: add byte tail rest

/-- Cuts a list of words where a word ends: what was found before the last end, the last one first,
and what is found after it. An end adds nothing to one before which no word goes on. -/
def cut (words : List (List UInt8)) : List Chunk × Chunk :=
  words.foldl
    (fun (ended, chunk) word =>
      match word with
      | [] =>
        if chunk.isEmpty && !ended.isEmpty && ended.all (·.isEmpty) then (ended, chunk)
        else (chunk :: ended, [])
      | byte :: tail => (ended, chunk.add byte tail))
    ([], [])

end Chunk

/-- The size of the states for words up to their next bytes, and what follows each of these. Words
that come after the end of another one share nothing with those before it. -/
def branchWords (words : List (List UInt8)) : Nat × List (List (List UInt8)) :=
  let (ended, last) := Chunk.cut words
  let chunks := (last :: ended).filter (!·.isEmpty)
  let own := chunks.map fun chunk =>
    if chunk.length = 1 then stateSize else rangesSize chunk.length
  (own.foldl (· + ·) (branchSize (chunks.length + ended.length)),
    chunks.flatMap fun chunk => chunk.map fun (_, tails) => tails.reverse)

/-- The size of an automaton for words, which share their beginnings. All words that share one are
an item of `branches`. Without the states that are counted here it has the size `sum`. -/
def wordsSize : (length sum : Nat) → (branches : List (List (List UInt8))) → Nat
  | 0, sum, _ => sum
  | length + 1, sum, branches =>
    let grown := (branches.filter (·.any (!·.isEmpty))).map branchWords
    wordsSize length (grown.foldl (fun sum b => sum + b.1) sum) (grown.flatMap (·.2))

end JavaCallGraph.Pattern
