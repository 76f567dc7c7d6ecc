import JavaCallGraph.Pattern.CharSet

/-!
# Ranges of code points

A set of characters as the ranges of code points that it consists of. The ranges are sorted, and no
two of them overlap or touch. The numbers between `0xD800` and `0xDFFF` are no characters and are in
no range.

The characters of a range have forms in UTF-8 that fall into a few shapes, each with a range for
every byte.
-/

namespace JavaCallGraph

/-- The numbers from the first to the second. -/
abbrev CodeRange := Nat × Nat

namespace CodeRange

def contains (r : CodeRange) (n : Nat) : Bool := r.1 ≤ n && n ≤ r.2

/-- The characters among the code points of a range. -/
def clip (r : CodeRange) : List CodeRange :=
  [(r.1, min r.2 0xD7FF), (max r.1 0xE000, r.2)].filter fun r => r.1 ≤ r.2

/-- Joins ranges that overlap or touch. They come in the order of their starts. -/
def joinAfter (r : CodeRange) : List CodeRange → List CodeRange
  | [] => [r]
  | s :: rest => if s.1 ≤ r.2 + 1 then joinAfter (r.1, max r.2 s.2) rest else r :: joinAfter s rest

def joined : List CodeRange → List CodeRange
  | [] => []
  | r :: rest => joinAfter r rest

def union (a b : List CodeRange) : List CodeRange := joined (a.merge b fun r s => r.1 ≤ s.1)

/-- The numbers from `start` to before `stop`. -/
def between (start stop : Nat) : List CodeRange := if start < stop then [(start, stop - 1)] else []

/-- What lies between the ranges from `start` on. -/
def gaps (start : Nat) : List CodeRange → List CodeRange
  | [] => between start 0x110000
  | r :: rest => between start r.1 ++ gaps (r.2 + 1) rest

def complement (a : List CodeRange) : List CodeRange := (gaps 0 a).flatMap clip

def ofCodes (codes : List Nat) : List CodeRange :=
  joined ((codes.mergeSort fun m n => m ≤ n).map fun n => (n, n))

end CodeRange

/-- Each character that is not the least one of its letter, with the least one. -/
def letterPairs : List (Nat × Nat) :=
  letterRows.flatMap fun (lo, hi, step, down) =>
    (List.range ((hi - lo) / step + 1)).map fun k => (lo + k * step, lo + k * step - down)

namespace CharSet

/-- The pairs of upper and lower case in ASCII. -/
def asciiPairs : List (Nat × Nat) := (List.range 26).map fun k => ('a'.toNat + k, 'A'.toNat + k)

/-- Ranges together with the characters that are one letter with a member. -/
def closeUnder (pairs : List (Nat × Nat)) (ranges : List CodeRange) : List CodeRange :=
  let has (n : Nat) := ranges.any (·.contains n)
  let reached := (pairs.filter fun (n, least) => has n || has least).map (·.2)
  let added := (pairs.filter fun (_, least) => reached.contains least).flatMap fun (n, least) =>
    [n, least]
  CodeRange.union ranges (CodeRange.ofCodes added)

/-- The ranges of the members. -/
def ranges : CharSet → List CodeRange
  | range lo hi => if lo ≤ hi then CodeRange.clip (lo.toNat, hi.toNat) else []
  | digit => digitRanges.toList
  | word => wordRanges.toList
  | blank => blankRanges
  | union a b => CodeRange.union a.ranges b.ranges
  | inter a b =>
    CodeRange.complement
      (CodeRange.union (CodeRange.complement a.ranges) (CodeRange.complement b.ranges))
  | complement a => CodeRange.complement a.ranges
  | anyCase a => closeUnder letterPairs a.ranges
  | anyAsciiCase a => closeUnder asciiPairs a.ranges

/-- The only member of a set. -/
def only? (s : CharSet) : Option Char :=
  match s.ranges with
  | [(lo, hi)] => if lo = hi then some (.ofNat lo) else none
  | _ => none

end CharSet

/-! ### Forms in UTF-8 -/

namespace CodeRange

/-- A range for each byte. -/
abbrev Form := List (Nat × Nat)

/-- The forms of the numbers from `lo` to `hi` in a byte and `tails` more bytes with six bits each.
The first byte is its share of the number added to `mark`. -/
def formsFrom (mark : Nat) : (tails lo hi : Nat) → List Form
  | 0, lo, hi => [[(mark + lo, mark + hi)]]
  | tails + 1, lo, hi =>
    let block := Nat.pow 64 (tails + 1)
    let first := lo / block
    let last := hi / block
    let inside (share lo hi : Nat) :=
      (formsFrom 0x80 tails lo hi).map ((mark + share, mark + share) :: ·)
    if first = last then inside first (lo % block) (hi % block)
    else
      let start := if lo % block = 0 then [] else inside first (lo % block) (block - 1)
      let stop := if hi % block = block - 1 then [] else inside last 0 (hi % block)
      let whole := (first + start.length.min 1, last - stop.length.min 1)
      let middle := if whole.1 ≤ whole.2 then
          [(mark + whole.1, mark + whole.2) :: List.replicate (tails + 1) (0x80, 0xBF)]
        else []
      start ++ middle ++ stop

/-- The code points by the number of bytes after the first one, with the mark of the first one. -/
def widths : List (CodeRange × Nat × Nat) := [
  ((0x0, 0x7F), 0, 0x0), ((0x80, 0x7FF), 1, 0xC0), ((0x800, 0xFFFF), 2, 0xE0),
  ((0x10000, 0x10FFFF), 3, 0xF0)]

/-- The forms of the characters of a range in UTF-8. -/
def forms (r : CodeRange) : List Form :=
  widths.flatMap fun (width, tails, mark) =>
    let lo := max r.1 width.1
    let hi := min r.2 width.2
    if lo ≤ hi then formsFrom mark tails lo hi else []

/-- Forms by their first ranges, with what follows these. -/
def groups (forms : List Form) : List ((Nat × Nat) × List Form) :=
  forms.foldr
    (fun form groups =>
      match form, groups with
      | [], groups => groups
      | r :: tail, [] => [(r, [tail])]
      | r :: tail, (s, tails) :: rest =>
        if r = s then (s, tail :: tails) :: rest else (r, [tail]) :: (s, tails) :: rest)
    []

end CodeRange

end JavaCallGraph
