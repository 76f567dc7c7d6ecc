import JavaCallGraph.Text.Blank
import JavaCallGraph.Text.LetterCase
import JavaCallGraph.Text.WordChar

/-!
# Sets of characters
-/

namespace JavaCallGraph

inductive CharSet where
  | range (lo hi : Char)
  | digit
  | word
  | blank
  | union (a b : CharSet)
  | inter (a b : CharSet)
  | complement (a : CharSet)
  /-- The characters that are one letter with a member. -/
  | anyCase (a : CharSet)
  /-- The same for the letters of ASCII alone. -/
  | anyAsciiCase (a : CharSet)
  deriving DecidableEq, Repr, Inhabited

namespace CharSet

def contains : CharSet → Char → Bool
  | range lo hi, c => lo ≤ c && c ≤ hi
  | digit, c => isDecimalDigit c
  | word, c => isWordChar c
  | blank, c => isBlank c
  | union a b, c => a.contains c || b.contains c
  | inter a b, c => a.contains c && b.contains c
  | complement a, c => !a.contains c
  | anyCase a, c => a.contains c || (letterCases c).any a.contains
  | anyAsciiCase a, c => a.contains c || a.contains c.toLower || a.contains c.toUpper

def single (c : Char) : CharSet := .range c c

def full : CharSet := .range '\x00' (Char.ofNat 0x10FFFF)

def nothing : CharSet := .complement full

def unions (sets : List CharSet) : CharSet :=
  match sets with
  | [] => nothing
  | set :: rest => rest.foldl .union set

def ofChars (cs : List Char) : CharSet := unions (cs.map single)

def diff (a b : CharSet) : CharSet := .inter a (.complement b)

/-- The members of just one of two sets. -/
def symmDiff (a b : CharSet) : CharSet := .union (a.diff b) (b.diff a)

/-! ### Sets of ASCII characters -/

def asciiDigit : CharSet := .range '0' '9'

def asciiUpper : CharSet := .range 'A' 'Z'

def asciiLower : CharSet := .range 'a' 'z'

def asciiAlpha : CharSet := .union asciiUpper asciiLower

def asciiAlnum : CharSet := .union asciiDigit asciiAlpha

def asciiWord : CharSet := .union asciiAlnum (single '_')

def asciiBlank : CharSet := .union (.range '\t' '\r') (single ' ')

/-- The sets of ASCII characters that have a name. -/
def named : List (String × CharSet) := [
  ("alnum", asciiAlnum),
  ("alpha", asciiAlpha),
  ("ascii", .range '\x00' '\x7f'),
  ("blank", ofChars ['\t', ' ']),
  ("cntrl", .union (.range '\x00' '\x1f') (single '\x7f')),
  ("digit", asciiDigit),
  ("graph", .range '!' '~'),
  ("lower", asciiLower),
  ("print", .range ' ' '~'),
  ("punct", .diff (.range '!' '~') asciiAlnum),
  ("space", asciiBlank),
  ("upper", asciiUpper),
  ("word", asciiWord),
  ("xdigit", unions [asciiDigit, .range 'A' 'F', .range 'a' 'f'])]

end CharSet

end JavaCallGraph
