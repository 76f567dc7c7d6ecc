import JavaCallGraph.Pattern

/-!
# Globs

A glob describes paths. A question mark stands for one byte of a name, a star for a part of a name,
two stars between slashes for any number of directories, brackets for one of several bytes, and
braces for one of several globs. A glob is turned into a pattern over bytes, each written as the
character of the same number.
-/

namespace JavaCallGraph.Glob

open Pattern

/-- The bytes of a text as characters. -/
def bytesOf (s : List Char) : List Char :=
  (String.ofList s).toUTF8.toList.map fun b => Char.ofNat b.toNat

def anyByte : Pattern := .one .full

def inName : Pattern := .one (.complement (.single '/'))

/-- A part of a glob. Some parts are told from others when more of the glob is read. -/
inductive Part where
  /-- Any number of directories at the start. -/
  | anyDirs
  /-- Anything in a directory. -/
  | anyBelow
  /-- A choice between no globs, which stands for nothing. -/
  | void
  | other (p : Pattern)

def Part.pattern : Part → Pattern
  | anyDirs => .alt (optional (literal '/')) (.cat (star anyByte) (literal '/'))
  | anyBelow => .cat (literal '/') (star anyByte)
  | void => .empty
  | other p => p

def Part.isVoid : Part → Bool
  | void => true
  | _ => false

def literalChar (c : Char) : Part := .other (sequence ((bytesOf [c]).map literal))

def nameStar : Part := .other (star inName)

/-- A slash, or a path between two slashes. -/
def betweenDirs : Part :=
  .other (.alt (literal '/') (sequence [literal '/', star anyByte, literal '/']))

/-! ### Brackets -/

/-- The members of a class from `lo` to `hi`, byte by byte: of a character of several bytes only
the byte next to the hyphen is an end of the range. -/
def rangeSet (lo hi : Char) : CharSet :=
  if lo = hi then .ofChars (bytesOf [lo])
  else
    let los := bytesOf [lo]
    let his := bytesOf [hi]
    .unions (.range (los.getLastD lo) (his.headD hi) ::
      (los.dropLast ++ his.drop 1).map CharSet.single)

/-- What a bracket opens: a class with the text after it, or a bracket that is never closed, or a
range from a higher to a lower character. -/
inductive Bracket where
  | closed (ranges : List (Char × Char)) (rest : List Char)
  | unclosed
  | bad

/-- The members of a class. `ranges` holds those so far, the last one first, and `inRange` tells
that a hyphen after the last one waits for the end of its range. -/
def takeMembers (ranges : List (Char × Char)) (inRange : Bool) : List Char → Bracket
  | [] => .unclosed
  | c :: rest =>
    match ranges, inRange with
    | [], _ => takeMembers [(c, c)] false rest
    | ranges, false =>
      if c == ']' then .closed ranges rest
      else if c == '-' then takeMembers ranges true rest
      else takeMembers ((c, c) :: ranges) false rest
    | (lo, hi) :: ranges, true =>
      if c == ']' then .closed (('-', '-') :: (lo, hi) :: ranges) rest
      else if c < lo then .bad
      else takeMembers ((lo, c) :: ranges) false rest

/-! ### Reading -/

/-- A glob that is read. Its braces open levels; a level has the parts before its brace and the
alternatives that are complete. Parts are listed with the last one first. -/
structure State where
  parts : List Part := []
  levels : List (List Part × List (List Part)) := []
  /-- The last character that was read. -/
  last : Option Char := none
  /-- A bracket that is never closed was met: brackets stand for themselves from there on. -/
  plainBrackets : Bool := false

namespace State

def push (s : State) (last : Char) (parts : List Part) : State :=
  { s with parts := parts.reverse ++ s.parts, last := some last }

/-- Two stars and the text after them. -/
def twoStars (s : State) (rest : List Char) : State × List Char :=
  let plain := (s.push '*' [nameStar, nameStar], rest)
  match s.parts with
  | [] =>
    match rest with
    | [] => (s.push '*' [.anyDirs], [])
    | '/' :: rest => (s.push '/' [.anyDirs], rest)
    | _ => plain
  | part :: parts =>
    let merged (new : Part) : Part :=
      match part with
      | .anyDirs => .anyDirs
      | .anyBelow => .anyBelow
      | _ => new
    let below := ({ s with parts := merged .anyBelow :: parts, last := some '*' }, rest)
    if s.last != some '/' then plain
    else
      match rest with
      | [] => below
      | '/' :: rest => ({ s with parts := merged betweenDirs :: parts, last := some '/' }, rest)
      | c :: _ => if (c == ',' || c == '\x7d') && !s.levels.isEmpty then below else plain

/-- The alternatives of a brace that is closed. Those that stand for nothing do not count. -/
def choiceOf (branches : List (List Part)) : Part :=
  match branches.filter fun parts => !parts.all Part.isVoid with
  | [] => .void
  | branches => .other (choice (branches.map fun parts => sequence (parts.reverse.map (·.pattern))))

/-- Reads the start of a text; none if the glob is ill-formed. -/
def step (s : State) (c : Char) (rest : List Char) : Option (State × List Char) :=
  match c with
  | '?' => some (s.push c [.other inName], rest)
  | '*' =>
    match rest with
    | '*' :: rest => some (s.twoStars rest)
    | _ => some (s.push c [nameStar], rest)
  | '\x7b' =>
    some ({ s with parts := [], levels := (s.parts, []) :: s.levels, last := some c }, rest)
  | '\x7d' =>
    match s.levels with
    | [] => none
    | (parts, branches) :: levels =>
      some ({ s with
        parts := choiceOf (s.parts :: branches).reverse :: parts, levels, last := some c }, rest)
  | ',' =>
    match s.levels with
    | [] => some (s.push c [literalChar c], rest)
    | (parts, branches) :: levels =>
      some ({ s with
        parts := [], levels := (parts, s.parts :: branches) :: levels, last := some c }, rest)
  | '\\' =>
    match rest with
    | [] => none
    | c :: rest => some (s.push c [literalChar c], rest)
  | '[' =>
    if s.plainBrackets then some (s.push c [literalChar c], rest)
    else
      let (negated, members) := match rest with
        | '!' :: members => (true, members)
        | '^' :: members => (true, members)
        | members => (false, members)
      match takeMembers [] false members with
      | .bad => none
      | .unclosed => some ({ s.push c [literalChar c] with plainBrackets := true }, rest)
      | .closed ranges rest =>
        let set := CharSet.unions (ranges.map fun (lo, hi) => rangeSet lo hi)
        some (s.push ']' [.other (.one (if negated then .complement set else set))], rest)
  | c => some (s.push c [literalChar c], rest)

/-- Reads a text. One step for each character is enough. -/
def run : Nat → State → List Char → Option State
  | _, s, [] => some s
  | 0, _, _ => none
  | fuel + 1, s, c :: rest =>
    match s.step c rest with
    | none => none
    | some (s, rest) => run fuel s rest

end State

/-- The pattern of a glob. Two stars alone stand for everything. -/
def parse? (glob : List Char) : Option Pattern := do
  let s ← State.run glob.length {} glob
  if !s.levels.isEmpty then none
  else
    match s.parts with
    | [.anyDirs] => return star anyByte
    | parts => return sequence (parts.reverse.map (·.pattern))

/-- The pattern of a glob matches a path. -/
def matchesPath (p : Pattern) (path : String) : Bool := p.matchesAll (bytesOf path.toList)

end JavaCallGraph.Glob
