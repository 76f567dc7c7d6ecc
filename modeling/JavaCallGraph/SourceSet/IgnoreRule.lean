import JavaCallGraph.SourceSet.Glob
import JavaCallGraph.Text.Blank
import JavaCallGraph.Text.Utf8

/-!
# Ignore rules

A line of an ignore file names files and directories that are left out of a scan, or kept in it
after all. A line without a slash in the middle applies at any depth below the directory of its
file. Of the lines of one file that match, the last one counts.
-/

namespace JavaCallGraph

structure IgnoreRule where
  pattern : Pattern
  /-- The rule keeps what it matches. -/
  keeps : Bool
  onlyDirs : Bool

namespace IgnoreRule

/-- The glob that a rule matches whole paths with. -/
def fullGlob (anchored : Bool) (s : List Char) : List Char :=
  let s := if anchored || s.contains '/' || s == ['*', '*'] then s else "**/".toList ++ s
  if "/**".toList.isSuffixOf s then s ++ "/*".toList else s

/-- Cuts the slash at the end of a rule for directories. -/
def cutSlash (s : List Char) : Bool × List Char :=
  match s.reverse with
  | '/' :: '\\' :: front => (true, front.reverse)
  | '/' :: front => (true, front.reverse)
  | _ => (false, s)

/-- Reads a line. Comments and empty lines give no rule, and neither do ill-formed globs. -/
def ofLine? (line : List Char) : Option IgnoreRule :=
  if line.head? == some '#' then none
  else
    let line := if ['\\', ' '].isSuffixOf line then line else Text.trimEnd line
    if line.isEmpty then none
    else
      let (keeps, anchored, rest) := match line with
        | '\\' :: '!' :: rest => (false, false, '!' :: rest)
        | '\\' :: '#' :: rest => (false, false, '#' :: rest)
        | '!' :: '/' :: rest => (true, true, rest)
        | '!' :: rest => (true, false, rest)
        | '/' :: rest => (false, true, rest)
        | rest => (false, false, rest)
      let (onlyDirs, rest) := cutSlash rest
      (Glob.parse? (fullGlob anchored rest)).map fun pattern => ⟨pattern, keeps, onlyDirs⟩

def appliesTo (rule : IgnoreRule) (path : String) (isDir : Bool) : Bool :=
  (isDir || !rule.onlyDirs) && Glob.matchesPath rule.pattern path

/-- The lines of a file without their ends, after the bytes of `line`, which come last first. A
carriage return belongs to the end of a line if a line feed follows it. -/
def linesOf (line : List UInt8) : List UInt8 → List (List UInt8)
  | [] => [line.reverse]
  | b :: rest =>
    if b != 10 then linesOf (b :: line) rest
    else
      match line with
      | 13 :: line => line.reverse :: linesOf [] rest
      | line => line.reverse :: linesOf [] rest

/-- The rules of an ignore file, in order. Marks of the byte order before the first line are left
out. The file ends before the first line that is no text. -/
def ofBytes (bytes : ByteArray) : List IgnoreRule :=
  let lines := (linesOf [] bytes.toList).map fun line => Utf8.decode? ⟨line.toArray⟩
  match (lines.takeWhile Option.isSome).filterMap id with
  | [] => []
  | first :: rest =>
    let first := first.toList.dropWhile (· == '\ufeff')
    (first :: rest.map String.toList).filterMap ofLine?

/-- Whether the rules leave a path out (`true`) or keep it (`false`); nothing if none applies. -/
def verdict? (rules : List IgnoreRule) (path : String) (isDir : Bool) : Option Bool :=
  (rules.reverse.find? (·.appliesTo path isDir)).map (!·.keeps)

end IgnoreRule

end JavaCallGraph
