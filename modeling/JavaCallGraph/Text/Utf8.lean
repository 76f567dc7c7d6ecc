/-!
# Reading bytes as text

Bytes that are no UTF-8 become replacement characters: each longest run that starts a character
and cannot be completed counts as one, and so does each byte that starts none.
-/

namespace JavaCallGraph.Utf8

def replacement : Char := '�'

def isContinuation (b : UInt8) : Bool := 0x80 ≤ b && b ≤ 0xBF

/-- The range of second bytes after a first byte of a character of three or four bytes. -/
def isSecond (first b : UInt8) : Bool :=
  if first == 0xE0 then 0xA0 ≤ b && b ≤ 0xBF
  else if first == 0xED then 0x80 ≤ b && b ≤ 0x9F
  else if first == 0xF0 then 0x90 ≤ b && b ≤ 0xBF
  else if first == 0xF4 then 0x80 ≤ b && b ≤ 0x8F
  else isContinuation b

/-- The code point of a first byte's payload followed by the payloads of continuation bytes. -/
def codePoint (payload : UInt8) (bytes : List UInt8) : Char :=
  Char.ofNat (bytes.foldl (fun n b => n * 64 + (b.toNat - 0x80)) payload.toNat)

/-- How many of the bytes after the first belong to a character of `width` bytes that is
completed, or to the longest run that could still be. -/
def runLength (first : UInt8) (width : Nat) : List UInt8 → Nat
  | [] => 0
  | b :: rest =>
    if isSecond first b then 1 + ((rest.take (width - 2)).takeWhile isContinuation).length else 0

/-- The character that starts at `first`, and how many of the bytes after it belong to it. -/
def step (first : UInt8) (rest : List UInt8) : Char × Nat :=
  if first < 0x80 then (Char.ofNat first.toNat, 0)
  else
    let width := if first < 0xC2 then 1 else if first < 0xE0 then 2
      else if first < 0xF0 then 3 else if first < 0xF5 then 4 else 1
    if width == 1 then (replacement, 0)
    else
      let n := runLength first width rest
      let payload := if width == 2 then first - 0xC0 else if width == 3 then first - 0xE0
        else first - 0xF0
      (if n + 1 == width then codePoint payload (rest.take n) else replacement, n)

def decodeLossy (bytes : List UInt8) : List Char :=
  match bytes with
  | [] => []
  | b :: rest => (step b rest).1 :: decodeLossy (rest.drop (step b rest).2)
termination_by bytes.length
decreasing_by rw [List.length_drop, List.length_cons]; omega

/-- The text of the bytes, if they are UTF-8. -/
def decode? (bytes : ByteArray) : Option String := String.fromUTF8? bytes

/-- The text of the bytes, with replacement characters where they are no UTF-8. -/
def decode (bytes : ByteArray) : String :=
  match decode? bytes with
  | some text => text
  | none => String.ofList (decodeLossy bytes.toList)

end JavaCallGraph.Utf8
