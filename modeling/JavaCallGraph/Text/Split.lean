/-!
# Cutting texts
-/

namespace JavaCallGraph.Text

/-- The text before the last character of which `p` holds, and the text after it. -/
def cutLast (p : Char → Bool) (s : List Char) : Option (List Char × List Char) :=
  match s.reverse.dropWhile (!p ·) with
  | [] => none
  | _ :: front => some (front.reverse, (s.reverse.takeWhile (!p ·)).reverse)

/-- The text before the last `c` and the text after it. -/
def splitAtLast (c : Char) (s : String) : Option (String × String) :=
  (cutLast (· == c) s.toList).map fun (front, rest) => (.ofList front, .ofList rest)

/-- A path with slashes in the place of backslashes. -/
def slashed (path : String) : String :=
  String.ofList (path.toList.map fun c => if c = '\\' then '/' else c)

end JavaCallGraph.Text
