import JavaCallGraph.Json.Value

/-!
# Writing JSON

A value is written over several lines, with two blanks for each level and one item or member a
line; an empty array or object stays on its line.
-/

namespace JavaCallGraph.Json

def hexDigit (n : Nat) : Char := "0123456789abcdef".toList.getD n '0'

/-- Quotes, backslashes and control characters are escaped, and nothing else. -/
def escapeChar (c : Char) : List Char :=
  match c with
  | '"' => ['\\', '"']
  | '\\' => ['\\', '\\']
  | '\x08' => ['\\', 'b']
  | '\x0c' => ['\\', 'f']
  | '\n' => ['\\', 'n']
  | '\r' => ['\\', 'r']
  | '\t' => ['\\', 't']
  | c => if c.toNat < 0x20 then ['\\', 'u', '0', '0', hexDigit (c.toNat / 16),
      hexDigit (c.toNat % 16)] else [c]

def quote (text : String) : String :=
  String.ofList ('"' :: text.toList.flatMap escapeChar ++ ['"'])

def indent (level : Nat) : String := String.ofList (List.replicate (2 * level) ' ')

/-- Parts on lines of their own between brackets. -/
def bracket (opening closing : String) (level : Nat) (parts : List String) : String :=
  if parts.isEmpty then opening ++ closing
  else
    opening ++ "\n" ++ String.intercalate ",\n" (parts.map (indent (level + 1) ++ ·)) ++
      "\n" ++ indent level ++ closing

mutual

def render (level : Nat) : Json → String
  | .null => "null"
  | .bool value => if value then "true" else "false"
  | .natural value => toString value
  | .otherNumber => "0"
  | .string text => quote (text.getD "")
  | .array items => bracket "[" "]" level (renderItems (level + 1) items)
  | .object members => bracket "\x7b" "\x7d" level (renderMembers (level + 1) members)

def renderItems (level : Nat) : List Json → List String
  | [] => []
  | item :: items => render level item :: renderItems level items

def renderMembers (level : Nat) : List (Option String × Json) → List String
  | [] => []
  | (name, value) :: members =>
    (quote (name.getD "") ++ ": " ++ render level value) :: renderMembers level members

end

def pretty (value : Json) : String := render 0 value

end JavaCallGraph.Json
