import JavaCallGraph.Config

/-!
# Arguments

Options are written `--name value`, `--name=value`, `-n value`, `-nvalue` or `-n=value`. A value
that starts with a hyphen must be attached to its option. An option is given once, unless it may be
repeated. After two hyphens alone nothing is an option. Reading stops at the first argument that
ends it, be it an error or a request for help.
-/

namespace JavaCallGraph

/-- Why nothing is to be run. -/
inductive Stop where
  | usage | help | version
  deriving DecidableEq, Repr, Inhabited

/-- What an option is followed by. -/
inductive OptionValue where
  | none
  | text
  /-- A text that is not empty. -/
  | path
  | count
  | oneOf (names : List String)
  /-- Nothing: the option ends the reading. -/
  | ends (stop : Stop)
  deriving DecidableEq, Repr, Inhabited

def OptionValue.accepts (v : OptionValue) (text : String) : Bool :=
  match v with
  | .text => true
  | .path => !text.isEmpty
  | .count => (Config.parseCount? text.toList).isSome
  | .oneOf names => names.contains text
  | .none => false
  | .ends _ => false

structure OptionSpec where
  long : String
  short : Option Char := none
  value : OptionValue
  repeatable : Bool := false
  deriving Repr, Inhabited

/-- The options read so far with their values, and the other arguments. -/
structure Given where
  options : List (String × String) := []
  operands : List String := []

namespace Given

def has (g : Given) (long : String) : Bool := g.options.any (·.1 == long)

def value? (g : Given) (long : String) : Option String := g.options.lookup long

def values (g : Given) (long : String) : List String :=
  (g.options.filter (·.1 == long)).map (·.2)

/-- Adds an option; one that may not be repeated stops the reading the second time. -/
def add (g : Given) (spec : OptionSpec) (value : String) : Except Stop Given :=
  if g.has spec.long && !spec.repeatable then .error .usage
  else .ok { g with options := g.options ++ [(spec.long, value)] }

def addValue (g : Given) (spec : OptionSpec) (value : String) : Except Stop Given :=
  if spec.value.accepts value then g.add spec value else .error .usage

end Given

/-- What one argument is. -/
inductive Argument where
  | operand (text : String)
  | separator
  /-- An option, with the value attached to it, if any. -/
  | option (spec : OptionSpec) (attached : Option String)
  | unknown

namespace Argument

def isOptionLike (text : String) : Bool := text.startsWith "-" && text != "-"

def cutEquals (s : List Char) : List Char × Option (List Char) :=
  match Signature.splitAtFirst '=' s with
  | some (name, value) => (name, some value)
  | none => (s, none)

def classify (specs : List OptionSpec) (text : String) : Argument :=
  match text.toList with
  | ['-', '-'] => .separator
  | '-' :: '-' :: rest =>
    let (name, value) := cutEquals rest
    match specs.find? (·.long == String.ofList name) with
    | some spec => .option spec (value.map String.ofList)
    | none => .unknown
  | '-' :: c :: rest =>
    match specs.find? (·.short == some c) with
    | none => .unknown
    | some spec =>
      match rest with
      | [] => .option spec none
      | '=' :: value => .option spec (some (.ofList value))
      | value => .option spec (some (.ofList value))
  | _ => .operand text

end Argument

open Argument in
/-- Reads arguments with at most `limit` operands. With `inner` given, the first operand ends the
reading, and it is returned with the arguments after it. -/
def Given.read (specs : List OptionSpec) (limit : Nat) (inner : Bool) :
    List String → Given → Except Stop (Given × List String)
  | [], g => .ok (g, [])
  | arg :: rest, g =>
    match classify specs arg with
    | .unknown => .error .usage
    | .operand text =>
      if inner then .ok (g, arg :: rest)
      else if g.operands.length < limit then
        read specs limit inner rest { g with operands := g.operands ++ [text] }
      else .error .usage
    | .separator =>
      if inner || limit < g.operands.length + rest.length then .error .usage
      else .ok ({ g with operands := g.operands ++ rest }, [])
    | .option spec attached =>
      match spec.value, attached with
      | .ends stop, none => .error stop
      | .ends stop, some _ => if arg.startsWith "--" then .error .usage else .error stop
      | .none, none =>
        match g.add spec "" with
        | .ok g => read specs limit inner rest g
        | .error e => .error e
      | .none, some _ => .error .usage
      | _, some value =>
        match g.addValue spec value with
        | .ok g => read specs limit inner rest g
        | .error e => .error e
      | _, none =>
        match rest with
        | [] => .error .usage
        | value :: rest =>
          if isOptionLike value then .error .usage
          else
            match g.addValue spec value with
            | .ok g => read specs limit inner rest g
            | .error e => .error e

end JavaCallGraph
