import JavaCallGraph.Pattern.Class
import JavaCallGraph.Pattern.Traits
import JavaCallGraph.Text.Alphanumeric

/-!
# Reading patterns

A pattern text is read in one pass with a stack of the groups that are open. A text that is no
pattern gives none: a group or class that is not closed, a repetition of nothing, a range from a
higher to a lower character, an escape that means nothing, and what is nested too deep or too large.
-/

namespace JavaCallGraph.Pattern

/-- How deep the parts of a pattern may be nested. -/
def maxDepth : Nat := 250

/-! ### Groups -/

/-- An item of a group: a change of flags, or a part with its depth. -/
inductive Item where
  | flags
  | part (e : Expr) (depth : Nat)

namespace Item

def expr? : Item → Option Expr
  | flags => none
  | part e _ => some e

def depth : Item → Nat
  | flags => 0
  | part _ depth => depth

end Item

/-- A group that is open. -/
structure Group where
  flags : Flags := {}
  /-- The match of the group is told apart. -/
  told : Bool := false
  /-- The alternatives before the last bar with their depths, the last one first. -/
  before : List (Expr × Nat) := []
  /-- The items after the last bar, the last one first. -/
  items : List Item := []

namespace Group

def push (g : Group) (e : Expr) (depth : Nat) : Group :=
  { g with items := .part e depth :: g.items }

/-- The items after the last bar as one part. -/
def last (g : Group) : Expr × Nat :=
  let depth := match g.items with
    | [item] => item.depth
    | items => items.foldl (fun depth item => max depth (item.depth + 1)) 0
  (.ofParts (g.items.reverse.filterMap Item.expr?), depth)

def bar (g : Group) : Group := { g with before := g.last :: g.before, items := [] }

/-- All of the group as one part. -/
def all (g : Group) : Expr × Nat :=
  match g.before with
  | [] => g.last
  | before =>
    let all := (g.last :: before).reverse
    (.ofAlternatives (all.map (·.1)), all.foldl (fun depth part => max depth (part.2 + 1)) 0)

/-- The group as a part of the one around it. -/
def close (g : Group) : Expr × Nat :=
  let (e, depth) := g.all
  (if g.told then .group e else e, depth + 1)

/-- Repeats the last item, which must be a part. -/
def repeatLast? (g : Group) (least : Nat) (most : Option Nat) (short : Bool) : Option Group :=
  match g.items with
  | .part e depth :: items =>
    if depth < maxDepth then
      some { g with items := .part (.ofRepeated e least most short) (depth + 1) :: items }
    else none
  | _ => none

end Group

/-! ### Parts of the text -/

/-- Whether a repetition prefers few times to many. A question mark behind it turns around what the
flags say. -/
def takeShort (f : Flags) : List Char → Bool × List Char
  | '?' :: rest => (!f.short, rest)
  | s => (f.short, s)

/-- A number with blanks around it. -/
def takeNumber (f : Flags) (s : List Char) : Option Nat × List Char :=
  let s := s.dropWhile isBlank
  let (digits, rest) := f.takeMost Char.isDigit s.length s
  let n := Text.decimal digits
  (if digits.isEmpty || UInt32.size ≤ n then none else some n, f.skip (rest.dropWhile isBlank))

/-- The counts of a repetition after their opening brace. -/
def takeCounts (f : Flags) (s : List Char) : Option (Nat × Option Nat × List Char) := do
  let (least?, rest) := takeNumber f (f.skip s)
  let least ← least?
  match rest with
  | '\x7d' :: rest => return (least, some least, f.skip rest)
  | ',' :: rest =>
    match f.skip rest with
    | '\x7d' :: rest => return (least, none, f.skip rest)
    | rest =>
      match takeNumber f rest with
      | (some most, '\x7d' :: rest) =>
        if least ≤ most then return (least, some most, f.skip rest) else none
      | _ => none
  | _ => none

/-- What follows the opening parenthesis of a group. -/
inductive Opening where
  | group (flags : Flags) (told : Bool)
  | named (name : List Char)
  | setFlags (flags : Flags)

/-- The name of a group, up to the bracket behind it. -/
def takeName (s : List Char) : Option (List Char × List Char) :=
  let name := s.takeWhile (· != '>')
  match name, s.drop name.length with
  | c :: cs, '>' :: rest =>
    if (c == '_' || isAlphabetic c) &&
        cs.all (fun c => isAlphanumeric c || ['_', '.', '[', ']'].contains c) then
      some (name, rest)
    else none
  | _, _ => none

def takeOpening (f : Flags) (s : List Char) : Option (Opening × List Char) :=
  match f.skip s with
  | '?' :: 'P' :: '<' :: rest => (takeName rest).map fun (name, rest) => (.named name, rest)
  | '?' :: '<' :: rest => (takeName rest).map fun (name, rest) => (.named name, rest)
  | '?' :: rest => do
    let letters := rest.takeWhile fun c => c != ')' && c != ':'
    let flags ← f.update? letters
    match rest.drop letters.length with
    | ':' :: rest => return (.group flags false, rest)
    | ')' :: rest => if letters.isEmpty then none else return (.setFlags flags, rest)
    | _ => none
  | s => some (.group f true, s)

/-- A single character. The cases of a letter are written out. -/
def charSet (f : Flags) (c : Char) : CharSet :=
  if f.anyCase && f.unicode then .ofChars (letterCases c) else f.fold (.single c)

def Atom.expr (f : Flags) : Atom → Expr
  | char c => .ofSet (charSet f c)
  | set s => .ofSet s
  | boundary b => .boundary b

/-! ### The reader -/

structure Reader where
  group : Group := {}
  /-- The groups around the innermost one, from the inside out. -/
  outer : List Group := []
  /-- The names of groups so far. -/
  names : List (List Char) := []

namespace Reader

def flags (r : Reader) : Flags := r.group.flags

def push (r : Reader) (e : Expr) (depth : Nat) : Reader :=
  { r with group := r.group.push e depth }

def enter (r : Reader) (flags : Flags) (told : Bool) : Reader :=
  { r with group := { flags, told }, outer := r.group :: r.outer }

/-- Reads one part of a text that starts with `c`. -/
def step (r : Reader) (c : Char) (rest : List Char) : Option (Reader × List Char) :=
  match c with
  | '(' =>
    match takeOpening r.flags rest with
    | none => none
    | some (.group flags told, rest) => some (r.enter flags told, rest)
    | some (.named name, rest) =>
      if r.names.contains name then none
      else some ({ r.enter r.flags true with names := name :: r.names }, rest)
    | some (.setFlags flags, rest) =>
      some ({ r with group := { r.group with flags, items := .flags :: r.group.items } }, rest)
  | ')' =>
    match r.outer with
    | [] => none
    | next :: outer =>
      let (e, depth) := r.group.close
      if depth ≤ maxDepth then some ({ r with group := next.push e depth, outer }, rest) else none
  | '|' => some ({ r with group := r.group.bar }, rest)
  | '[' => (takeClass r.flags rest).map fun (c, rest) => (r.push (.ofSet c.set) c.depth, rest)
  | '?' => repeated 0 (some 1) rest
  | '*' => repeated 0 none rest
  | '+' => repeated 1 none rest
  | '\x7b' => (takeCounts r.flags rest).bind fun (least, most, rest) => repeated least most rest
  | '\\' =>
    (takeEscape r.flags rest).map fun (atom, rest) => (r.push (atom.expr r.flags) 0, rest)
  | '^' => some (r.push (.boundary r.flags.start) 0, rest)
  | '$' => some (r.push (.boundary r.flags.stop) 0, rest)
  | '.' => r.flags.dot?.map fun set => (r.push (.ofSet set) 0, rest)
  | c => some (r.push (.ofSet (charSet r.flags c)) 0, rest)
where
  repeated (least : Nat) (most : Option Nat) (rest : List Char) : Option (Reader × List Char) :=
    let (short, rest) := takeShort r.flags rest
    (r.group.repeatLast? least most short).map fun group => ({ r with group }, rest)

/-- Reads a text. One step for each character is enough. -/
def run : Nat → Reader → List Char → Option Reader
  | fuel, r, s =>
    match r.flags.skip s, fuel with
    | [], _ => some r
    | _, 0 => none
    | c :: rest, fuel + 1 =>
      match r.step c rest with
      | none => none
      | some (r, rest) => run fuel r rest

end Reader

/-- Reads a pattern. -/
def parse? (text : List Char) : Option Pattern := do
  let r ← Reader.run text.length {} text
  let (e, depth) := r.group.all
  if r.outer.isEmpty ∧ depth ≤ maxDepth ∧ e.fits then some e.pattern else none

end JavaCallGraph.Pattern
