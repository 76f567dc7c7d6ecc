/-!
# White space

The characters with the Unicode property White_Space, and what is made of a text by leaving them
out at its ends or by cutting it at them. Texts are lists of characters.
-/

namespace JavaCallGraph

def blankRanges : List (Nat × Nat) := [
  (0x9, 0xD), (0x20, 0x20), (0x85, 0x85), (0xA0, 0xA0), (0x1680, 0x1680), (0x2000, 0x200A),
  (0x2028, 0x2029), (0x202F, 0x202F), (0x205F, 0x205F), (0x3000, 0x3000)]

def isBlank (c : Char) : Bool := blankRanges.any fun (lo, hi) => lo ≤ c.toNat && c.toNat ≤ hi

namespace Text

def trimStart (s : List Char) : List Char := s.dropWhile isBlank

def trimEnd (s : List Char) : List Char := (s.reverse.dropWhile isBlank).reverse

def trim (s : List Char) : List Char := trimEnd (trimStart s)

/-- The text after `start`, if it starts so. -/
def dropStart? (start s : List Char) : Option (List Char) :=
  if start.isPrefixOf s then some (s.drop start.length) else none

/-- The text before `ending`, if it ends so. -/
def dropEnd? (ending s : List Char) : Option (List Char) :=
  if ending.isSuffixOf s then some (s.take (s.length - ending.length)) else none

/-- The first run of characters that are not blank. -/
def firstWord? (s : List Char) : Option (List Char) :=
  match (trimStart s).takeWhile (!isBlank ·) with
  | [] => none
  | word => some word

end Text

end JavaCallGraph
