import JavaCallGraph.Json.Value
import JavaCallGraph.Text.Digits

/-!
# Reading JSON

Reading cuts a text into tokens and feeds the tokens to a machine with a stack of open arrays and
objects. The text holds one value, with white space around its tokens and nothing else.
-/

namespace JavaCallGraph.Json

inductive Token where
  | openArray | closeArray | openObject | closeObject | comma | colon
  | string (text : Option String)
  /-- A value that is one word: a number, a truth value or `null`. -/
  | atom (value : Json)

/-! ### Tokens -/

def isSpace (c : Char) : Bool := c == ' ' || c == '\n' || c == '\t' || c == '\r'

def punctuation? : Char → Option Token
  | '[' => some .openArray
  | ']' => some .closeArray
  | '{' => some .openObject
  | '}' => some .closeObject
  | ',' => some .comma
  | ':' => some .colon
  | _ => none

def unit? (a b c d : Char) : Option Nat := Text.hexadecimal? [a, b, c, d]

def isHighSurrogate (u : Nat) : Bool := 0xD800 ≤ u && u < 0xDC00

def isLowSurrogate (u : Nat) : Bool := 0xDC00 ≤ u && u < 0xE000

def ofSurrogates (high low : Nat) : Char :=
  Char.ofNat (0x10000 + (high - 0xD800) * 0x400 + (low - 0xDC00))

def simpleEscape? : Char → Option Char
  | '"' => some '"'
  | '\\' => some '\\'
  | '/' => some '/'
  | 'b' => some '\x08'
  | 'f' => some '\x0c'
  | 'n' => some '\n'
  | 'r' => some '\r'
  | 't' => some '\t'
  | _ => none

/-- How many characters a string has before its closing quote. -/
def stringSpan : List Char → Option Nat
  | [] => none
  | '"' :: _ => some 0
  | '\\' :: _ :: rest => (stringSpan rest).map (· + 2)
  | _ :: rest => (stringSpan rest).map (· + 1)

/-- The text between the quotes of a string, outside `none` when it is malformed and inside when
it holds half of a surrogate pair. -/
def unescape : List Char → Option (Option (List Char))
  | [] => some (some [])
  | '\\' :: 'u' :: a :: b :: c :: d :: '\\' :: 'u' :: e :: f :: g :: h :: rest =>
    match unit? a b c d, unit? e f g h with
    | some u, some v =>
      if isHighSurrogate u && isLowSurrogate v then
        (unescape rest).map (·.map (ofSurrogates u v :: ·))
      else
        (unescape ('\\' :: 'u' :: e :: f :: g :: h :: rest)).map fun tail =>
          if isHighSurrogate u || isLowSurrogate u then none
          else tail.map (Char.ofNat u :: ·)
    | _, _ => none
  | '\\' :: 'u' :: a :: b :: c :: d :: rest =>
    match unit? a b c d with
    | some u =>
      (unescape rest).map fun tail =>
        if isHighSurrogate u || isLowSurrogate u then none else tail.map (Char.ofNat u :: ·)
    | none => none
  | '\\' :: c :: rest =>
    match simpleEscape? c with
    | some e => (unescape rest).map (·.map (e :: ·))
    | none => none
  | c :: rest => if c.toNat < 0x20 || c == '\\' then none else (unescape rest).map (·.map (c :: ·))

def isWordChar (c : Char) : Bool := c.isAlphanum || c == '+' || c == '-' || c == '.'

/-- Digits with no needless zero in front. -/
def isWhole (s : List Char) : Bool :=
  match s with
  | [] => false
  | '0' :: rest => rest.isEmpty
  | s => s.all Char.isDigit

def isDigits (s : List Char) : Bool := !s.isEmpty && s.all Char.isDigit

def isExponent : List Char → Bool
  | '+' :: rest => isDigits rest
  | '-' :: rest => isDigits rest
  | rest => isDigits rest

/-- A fraction and an exponent, either of which may be missing. -/
def isNumberTail (s : List Char) : Bool :=
  let isMark (c : Char) : Bool := c == 'e' || c == 'E'
  let (fraction, exponent) := (s.takeWhile (!isMark ·), s.dropWhile (!isMark ·))
  (match fraction with
    | [] => true
    | '.' :: digits => isDigits digits
    | _ => false) &&
  (match exponent with
    | [] => true
    | _ :: rest => isExponent rest)

def number? (s : List Char) : Option Json :=
  let (signed, s) := match s with
    | '-' :: rest => (true, rest)
    | s => (false, s)
  let (whole, tail) := (s.takeWhile Char.isDigit, s.dropWhile Char.isDigit)
  if isWhole whole && isNumberTail tail then
    if !signed && tail.isEmpty then
      some (.natural (Text.decimal whole))
    else some .otherNumber
  else none

def atom? (word : List Char) : Option Json :=
  if word == "null".toList then some .null
  else if word == "true".toList then some (.bool true)
  else if word == "false".toList then some (.bool false)
  else number? word

def tokens (found : List Token) (s : List Char) : Option (List Token) :=
  match s with
  | [] => some found.reverse
  | c :: rest =>
    if isSpace c then tokens found rest
    else match punctuation? c with
      | some t => tokens (t :: found) rest
      | none =>
        if c == '"' then
          match stringSpan rest with
          | none => none
          | some n =>
            match unescape (rest.take n) with
            | none => none
            | some text =>
              tokens (.string (text.map String.ofList) :: found) (rest.drop (n + 1))
        else
          let word := rest.takeWhile isWordChar
          match atom? (c :: word) with
          | none => none
          | some value => tokens (.atom value :: found) (rest.drop word.length)
termination_by s.length
decreasing_by all_goals simp; try omega

/-! ### The machine -/

/-- An open array or object with what it holds so far, the last first. -/
inductive Frame where
  | array (items : List Json)
  | object (members : List (Option String × Json)) (name : Option String)

inductive State where
  /-- A value must follow. -/
  | value (stack : List Frame)
  /-- An array was opened: a value or its end must follow. -/
  | firstItem (stack : List Frame)
  /-- An object was opened: a name or its end must follow. -/
  | firstName (stack : List Frame)
  | name (members : List (Option String × Json)) (stack : List Frame)
  | colon (members : List (Option String × Json)) (name : Option String) (stack : List Frame)
  /-- A value is complete. -/
  | done (value : Json) (stack : List Frame)

def startValue (stack : List Frame) : Token → Option State
  | .openArray => some (.firstItem stack)
  | .openObject => some (.firstName stack)
  | .string text => some (.done (.string text) stack)
  | .atom value => some (.done value stack)
  | _ => none

def step : State → Token → Option State
  | .value stack, t => startValue stack t
  | .firstItem stack, .closeArray => some (.done (.array []) stack)
  | .firstItem stack, t => startValue (.array [] :: stack) t
  | .firstName stack, .closeObject => some (.done (.object []) stack)
  | .firstName stack, .string text => some (.colon [] text stack)
  | .name members stack, .string text => some (.colon members text stack)
  | .colon members text stack, .colon => some (.value (.object members text :: stack))
  | .done v (.array items :: stack), .comma => some (.value (.array (v :: items) :: stack))
  | .done v (.array items :: stack), .closeArray =>
    some (.done (.array (v :: items).reverse) stack)
  | .done v (.object members text :: stack), .comma => some (.name ((text, v) :: members) stack)
  | .done v (.object members text :: stack), .closeObject =>
    some (.done (.object ((text, v) :: members).reverse) stack)
  | _, _ => none

/-- The one value that a text holds. -/
def parse? (text : String) : Option Json := do
  match ← (← tokens [] text.toList).foldlM step (.value []) with
  | .done value [] => some value
  | _ => none

end JavaCallGraph.Json
