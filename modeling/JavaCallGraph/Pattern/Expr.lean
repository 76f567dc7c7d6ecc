import JavaCallGraph.Pattern
import JavaCallGraph.Pattern.CodeRange

/-!
# Expressions

What a pattern text says, with counted repetitions that are not written out yet. Expressions are
built in a simple form. A sequence has no empty parts and no sequences in it, and characters that
follow each other are one text. A choice has no choices in it. A choice between characters or
between sets is a set. If all alternatives are sequences with the same beginning, it stands before
the choice.
-/

namespace JavaCallGraph.Pattern

inductive Expr where
  | empty
  | text (cs : List Char)
  | set (s : CharSet)
  | boundary (b : Boundary)
  /-- A group whose match is told apart. -/
  | group (e : Expr)
  | sequence (es : List Expr)
  | choice (es : List Expr)
  /-- At least `least` times and, if `most` is given, at most so often; `short` if few are preferred
  to many. -/
  | repeated (e : Expr) (least : Nat) (most : Option Nat) (short : Bool)
  deriving Inhabited

namespace Expr

/-! ### Tests -/

mutual

/-- Two expressions say the same in the same way. Two groups never do. -/
def same : Expr → Expr → Bool
  | empty, empty => true
  | text as, text bs => as == bs
  | set a, set b => a.ranges == b.ranges
  | boundary a, boundary b => a == b
  | sequence as, sequence bs => sameAll as bs
  | choice as, choice bs => sameAll as bs
  | repeated a least most short, repeated b least' most' short' =>
    least == least' && most == most' && short == short' && a.same b
  | _, _ => false

def sameAll : List Expr → List Expr → Bool
  | [], [] => true
  | a :: as, b :: bs => a.same b && sameAll as bs
  | _, _ => false

end

mutual

/-- Every match is empty. -/
def isNarrow : Expr → Bool
  | empty => true
  | text _ => false
  | set _ => false
  | boundary _ => true
  | group e => e.isNarrow
  | sequence es => allNarrow es
  | choice es => allNarrow es
  | repeated e _ _ _ => e.isNarrow

def allNarrow : List Expr → Bool
  | [] => true
  | e :: es => e.isNarrow && allNarrow es

end

/-! ### Construction -/

def ofSet (s : CharSet) : Expr :=
  match s.only? with
  | some c => .text [c]
  | none => .set s

/-- Puts a part before the parts of a sequence. -/
def glue (e : Expr) (parts : List Expr) : List Expr :=
  match e, parts with
  | empty, parts => parts
  | text as, text bs :: rest => .text (as ++ bs) :: rest
  | e, parts => e :: parts

/-- The parts of an expression that is a sequence. -/
def parts : Expr → List Expr
  | sequence es => es
  | _ => []

def ofParts (es : List Expr) : Expr :=
  let parts := es.foldr
    (fun e rest =>
      match e with
      | sequence inner => inner.foldr glue rest
      | e => glue e rest)
    []
  match parts with
  | [] => .empty
  | [e] => e
  | es => .sequence es

def alternatives : Expr → List Expr
  | choice es => es
  | e => [e]

def char? : Expr → Option Char
  | text [c] => some c
  | _ => none

def set? : Expr → Option CharSet
  | set s => some s
  | _ => none

/-- One set for alternatives that are all characters or all sets. -/
def merged? (es : List Expr) : Option Expr :=
  match es.mapM char? with
  | some cs => some (.ofSet (.ofChars cs))
  | none => (es.mapM set?).map fun sets => .ofSet (.unions sets)

/-- A choice between expressions that do not all begin with the same part. -/
def ofDistinct (es : List Expr) : Expr :=
  match es.flatMap alternatives with
  | [] => .set .nothing
  | [e] => e
  | es => (merged? es).getD (.choice es)

/-- The longest beginning that two lists of parts have in common. -/
def commonStart : List Expr → List Expr → List Expr
  | a :: as, b :: bs => if a.same b then a :: commonStart as bs else []
  | _, _ => []

def ofAlternatives (es : List Expr) : Expr :=
  match ofDistinct es with
  | choice (e :: es) =>
    let start := es.foldl (fun start e => commonStart start e.parts) e.parts
    if start.isEmpty then .choice (e :: es)
    else
      let rest := (e :: es).map fun e => ofParts (e.parts.drop start.length)
      ofParts (start ++ [ofDistinct rest])
  | e => e

/-- Repeats an expression. One whose matches are all empty need not match more than once. -/
def ofRepeated (e : Expr) (least : Nat) (most : Option Nat) (short : Bool) : Expr :=
  let (least, most) :=
    if e.isNarrow then (min least 1, some ((most.map (min · 1)).getD 1)) else (least, most)
  match least, most with
  | 0, some 0 => .empty
  | 1, some 1 => e
  | least, most => .repeated e least most short

/-! ### Patterns -/

mutual

/-- The pattern that an expression stands for. -/
def pattern : Expr → Pattern
  | empty => .empty
  | text cs => .sequence (cs.map .literal)
  | set s => .one s
  | boundary b => .boundary b
  | group e => e.pattern
  | sequence es => .sequence (patternsAfter [] es)
  | choice es => .choice (patternsAfter [] es)
  | repeated e least most _ => e.pattern.repeated least most

/-- The patterns of expressions after others, which come last first. -/
def patternsAfter (before : List Pattern) : List Expr → List Pattern
  | [] => before.reverse
  | e :: es => patternsAfter (e.pattern :: before) es

end

end Expr

end JavaCallGraph.Pattern
