import JavaCallGraph.Pattern

/-!
# Flags of a pattern text

Flags say how the parts of a pattern text are taken. They hold up to the end of the group that
sets them.
-/

namespace JavaCallGraph.Pattern

structure Flags where
  /-- `i`: the case of letters does not matter. -/
  anyCase : Bool := false
  /-- `m`: `^` and `$` hold at the ends of lines too. -/
  lines : Bool := false
  /-- `s`: the dot takes line ends too. -/
  dotAll : Bool := false
  /-- `R`: a carriage return ends a line too, alone or before a line feed. -/
  returns : Bool := false
  /-- `x`: blanks and comments in the pattern text mean nothing. -/
  spaced : Bool := false
  /-- `u`: characters are those of Unicode, not of ASCII. -/
  unicode : Bool := true
  /-- `U`: a repetition prefers few times to many. -/
  short : Bool := false
  deriving DecidableEq, Repr, Inhabited

namespace Flags

/-- Sets one flag by its letter. -/
def set? (f : Flags) (letter : Char) (on : Bool) : Option Flags :=
  match letter with
  | 'i' => some { f with anyCase := on }
  | 'm' => some { f with lines := on }
  | 's' => some { f with dotAll := on }
  | 'R' => some { f with returns := on }
  | 'x' => some { f with spaced := on }
  | 'u' => some { f with unicode := on }
  | 'U' => some { f with short := on }
  | _ => none

/-- Sets flags such as `im-s`: those after a hyphen are switched off. No letter comes twice, and a
hyphen has letters behind it. -/
def update? (f : Flags) (letters : List Char) : Option Flags :=
  let on := letters.takeWhile (· != '-')
  match letters.dropWhile (· != '-') with
  | ['-'] => none
  | off =>
    let off := off.drop 1
    if (on ++ off).eraseDups.length = (on ++ off).length then do
      let f ← on.foldlM (fun f letter => f.set? letter true) f
      off.foldlM (fun f letter => f.set? letter false) f
    else none

/-- Leaves out blanks and comments at the start of a text, if they mean nothing. -/
def skip (f : Flags) (s : List Char) : List Char :=
  if f.spaced then skipFrom false s else s
where
  skipFrom (comment : Bool) : List Char → List Char
    | [] => []
    | c :: rest =>
      if comment then skipFrom (c != '\n') rest
      else if isBlank c then skipFrom false rest
      else if c == '#' then skipFrom true rest
      else c :: rest

/-- Takes characters that pass a test, at most `n` of them. -/
def takeMost (f : Flags) (test : Char → Bool) : (n : Nat) → List Char → List Char × List Char
  | n + 1, c :: rest =>
    if test c then
      let (taken, rest) := f.takeMost test n (f.skip rest)
      (c :: taken, rest)
    else ([], c :: rest)
  | _, s => ([], s)

def digit (f : Flags) : CharSet := if f.unicode then .digit else .asciiDigit

def word (f : Flags) : CharSet := if f.unicode then .word else .asciiWord

def blank (f : Flags) : CharSet := if f.unicode then .blank else .asciiBlank

/-- A set that was written by its members. -/
def fold (f : Flags) (set : CharSet) : CharSet :=
  if f.anyCase then if f.unicode then .anyCase set else .anyAsciiCase set else set

/-- The rest of the characters. Without Unicode that would be bytes that are no characters. -/
def complement? (f : Flags) (set : CharSet) : Option CharSet :=
  if f.unicode then some (.complement set) else none

def dot? (f : Flags) : Option CharSet :=
  if f.dotAll then f.complement? .nothing
  else if f.returns then f.complement? (.ofChars ['\n', '\r'])
  else f.complement? (.single '\n')

def start (f : Flags) : Boundary :=
  if !f.lines then .textStart
  else
    let lineStart := Boundary.either .textStart (.after (.single '\n'))
    if f.returns then
      .either lineStart (.both (.after (.single '\r')) (.neg (.before (.single '\n'))))
    else lineStart

def stop (f : Flags) : Boundary :=
  if !f.lines then .textStop
  else if f.returns then
    .either (.either .textStop (.before (.single '\r')))
      (.both (.before (.single '\n')) (.neg (.after (.single '\r'))))
  else .either .textStop (.before (.single '\n'))

/-! ### Word boundaries -/

def wordStartHalf (f : Flags) : Boundary := .neg (.after f.word)

def wordStopHalf (f : Flags) : Boundary := .neg (.before f.word)

def wordStart (f : Flags) : Boundary := .both f.wordStartHalf (.before f.word)

def wordStop (f : Flags) : Boundary := .both (.after f.word) f.wordStopHalf

def wordBoundary (f : Flags) : Boundary := .either f.wordStart f.wordStop

end Flags

end JavaCallGraph.Pattern
