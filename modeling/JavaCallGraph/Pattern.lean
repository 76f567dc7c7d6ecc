import JavaCallGraph.Pattern.CharSet

/-!
# Patterns

Regular expressions over characters, with tests on the neighbours of a place. A pattern keeps the
state of a match: every single character of the pattern remembers whether the last character of
the text that was read has just been matched there. Each character of the text moves these marks
on, all of them at once, so that the time for a text is bounded by the product of the two lengths.
-/

namespace JavaCallGraph

/-- A test on the characters before and after a place of a text. -/
inductive Boundary where
  | textStart
  | textStop
  /-- The character before the place is in the set. -/
  | after (set : CharSet)
  /-- The character after the place is in the set. -/
  | before (set : CharSet)
  | neg (e : Boundary)
  | both (e f : Boundary)
  | either (e f : Boundary)
  deriving DecidableEq, Repr, Inhabited

namespace Boundary

def holds (last next : Option Char) : Boundary → Bool
  | textStart => last.isNone
  | textStop => next.isNone
  | after set => last.any set.contains
  | before set => next.any set.contains
  | neg e => !e.holds last next
  | both e f => e.holds last next && f.holds last next
  | either e f => e.holds last next || f.holds last next

end Boundary

inductive Pattern where
  | empty
  /-- One character of a set; `reached` if the last character read was matched here. -/
  | char (set : CharSet) (reached : Bool)
  | boundary (e : Boundary)
  | cat (p q : Pattern)
  | alt (p q : Pattern)
  /-- One match or more in a row. -/
  | many (p : Pattern)
  deriving DecidableEq, Repr, Inhabited

namespace Pattern

/-! ### Construction -/

def one (set : CharSet) : Pattern := .char set false

/-- Joins patterns so that few of them enclose each other. -/
def joined (join : Pattern → Pattern → Pattern) (none : Pattern) (ps : List Pattern) : Pattern :=
  match ps with
  | [] => none
  | [p] => p
  | p :: q :: rest =>
    let half := (rest.length + 2) / 2
    join (joined join none ((p :: q :: rest).take half))
      (joined join none ((p :: q :: rest).drop half))
termination_by ps.length
decreasing_by
  · rw [List.length_take, List.length_cons, List.length_cons]; omega
  · rw [List.length_drop, List.length_cons, List.length_cons]; omega

def sequence (ps : List Pattern) : Pattern := joined .cat .empty ps

def choice (ps : List Pattern) : Pattern := joined .alt (.one .nothing) ps

def literal (c : Char) : Pattern := .one (.single c)

def optional (p : Pattern) : Pattern := .alt p .empty

def star (p : Pattern) : Pattern := .optional (.many p)

/-- At least `least` times and, if `most` is given, at most so often. -/
def repeated (p : Pattern) (least : Nat) (most : Option Nat) : Pattern :=
  match least, most with
  | 0, none => p.star
  | n + 1, none => sequence (List.replicate n p ++ [.many p])
  | least, some most =>
    sequence (List.replicate least p ++ List.replicate (most - least) p.optional)

/-! ### Matching -/

/-- What a pattern says of a place: whether it matches the empty text there, and whether a match
of it that was begun before ends there. -/
structure Verdict where
  skipped : Bool
  ended : Bool

namespace Verdict

/-- The verdict on two patterns in a row. -/
def andThen (first second : Verdict) : Verdict :=
  ⟨first.skipped && second.skipped, second.ended || first.ended && second.skipped⟩

def orElse (first second : Verdict) : Verdict :=
  ⟨first.skipped || second.skipped, first.ended || second.ended⟩

/-- A match of what follows can begin at the place, if one of what precedes it can begin there when
`enter` is set. -/
def leads (v : Verdict) (enter : Bool) : Bool := v.ended || enter && v.skipped

end Verdict

def verdict (last next : Option Char) : Pattern → Verdict
  | empty => ⟨true, false⟩
  | char _ reached => ⟨false, reached⟩
  | boundary e => ⟨e.holds last next, false⟩
  | cat p q => (p.verdict last next).andThen (q.verdict last next)
  | alt p q => (p.verdict last next).orElse (q.verdict last next)
  | many p => p.verdict last next

/-- Reads a character. Besides the matches that are under way, a match begins before the character
if `enter` is set. Along with the pattern comes its verdict on the place before the character. -/
def step (last : Option Char) (c : Char) : (enter : Bool) → Pattern → Verdict × Pattern
  | _, empty => (⟨true, false⟩, .empty)
  | enter, char set reached => (⟨false, reached⟩, .char set (enter && set.contains c))
  | _, boundary e => (⟨e.holds last (some c), false⟩, .boundary e)
  | enter, cat p q =>
    let (first, p) := p.step last c enter
    let (second, q) := q.step last c (first.leads enter)
    (first.andThen second, .cat p q)
  | enter, alt p q =>
    let (first, p) := p.step last c enter
    let (second, q) := q.step last c enter
    (first.orElse second, .alt p q)
  | enter, many p =>
    let here := p.verdict last (some c)
    (here, .many (p.step last c (enter || here.ended)).2)

/-- A match ends somewhere in the text that is left. It may begin at any place. -/
def occursFrom (p : Pattern) (last : Option Char) : List Char → Bool
  | [] =>
    let here := p.verdict last none
    here.skipped || here.ended
  | c :: rest =>
    let (here, p) := p.step last c true
    here.skipped || here.ended || occursFrom p (some c) rest

/-- The pattern matches some part of the text. -/
def occursIn (p : Pattern) (text : List Char) : Bool := p.occursFrom none text

/-- The pattern matches the whole text. -/
def matchesAll (p : Pattern) (text : List Char) : Bool :=
  (Pattern.cat (.boundary .textStart) (.cat p (.boundary .textStop))).occursIn text

end Pattern

end JavaCallGraph
