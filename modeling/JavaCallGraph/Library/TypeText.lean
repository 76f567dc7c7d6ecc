import JavaCallGraph.StaticType
import JavaCallGraph.Text.Alphanumeric
import JavaCallGraph.Text.Blank

/-!
# Types written as text

Library descriptions write types as `java.util.Map<K, java.util.List<V>>[]`. A name in scope is a
type variable. A wildcard stands for its upper bound, and for `Object` if it has none. White space
may stand between any two tokens.
-/

namespace JavaCallGraph

inductive TypeTextFault where
  | expectedName
  | expectedSeparator
  | unexpectedInput
  deriving DecidableEq, Repr

def TypeTextFault.reason : TypeTextFault → String
  | expectedName => "expected type name"
  | expectedSeparator => "expected ',' or '>'"
  | unexpectedInput => "unexpected input"

namespace TypeText

open Text

/-- Something read off the front of `s`, and the rest of the text. -/
structure Taken (α : Type) (s : List Char) where
  value : α
  rest : List Char
  shorter : rest.length < s.length

/-- Takes a token, and blanks before it. -/
def eat (token s : List Char) : Option (List Char) := dropStart? token (trimStart s)

theorem length_trimStart_le (s : List Char) : (trimStart s).length ≤ s.length :=
  (List.dropWhile_sublist _).length_le

theorem length_of_eat {token s rest : List Char} (ht : token ≠ [])
    (h : eat token s = some rest) : rest.length < s.length := by
  have htrim := length_trimStart_le s
  unfold eat dropStart? at h
  split at h
  · next hp =>
    have hlen := (List.isPrefixOf_iff_prefix.1 hp).length_le
    have hpos := List.length_pos_iff.2 ht
    simp only [Option.some.injEq] at h
    rw [← h, List.length_drop]
    omega
  · simp at h

def isTypeNameChar (c : Char) : Bool := isNameChar c || c == '.'

/-- The longest name at the front, blanks before it left out. -/
def takeName (s : List Char) : Option (Taken String s) :=
  match h : (trimStart s).takeWhile isTypeNameChar with
  | [] => none
  | c :: cs => some ⟨String.ofList (c :: cs), (trimStart s).dropWhile isTypeNameChar, by
      have hs := congrArg List.length
        (List.takeWhile_append_dropWhile (p := isTypeNameChar) (l := trimStart s))
      have htrim := length_trimStart_le s
      rw [h, List.length_append, List.length_cons] at hs
      omega⟩

def named (scope : List String) (name : String) : StaticType :=
  match Primitive.ofKeyword? name with
  | some p => .ofDescriptor (.primitive p)
  | none => if scope.contains name then .ofDescriptor (.typeVar name) else .reference name

/-- Pairs of brackets at the front, each of which makes an array. -/
def takeBrackets (t : StaticType) (s : List Char) : StaticType × List Char :=
  match _h : eat ['[', ']'] s with
  | none => (t, s)
  | some rest => takeBrackets t.arrayOf rest
termination_by s.length
decreasing_by exact length_of_eat (by simp) _h

theorem length_takeBrackets_le (t : StaticType) (s : List Char) :
    (takeBrackets t s).2.length ≤ s.length := by
  fun_induction takeBrackets t s with
  | case1 => simp
  | case2 t s rest h ih => exact Nat.le_of_lt (Nat.lt_of_le_of_lt ih (length_of_eat (by simp) h))

def afterBrackets {s : List Char} (t : StaticType) (rest : List Char)
    (h : rest.length < s.length) : Taken StaticType s :=
  ⟨(takeBrackets t rest).1, (takeBrackets t rest).2,
    Nat.lt_of_le_of_lt (length_takeBrackets_le t rest) h⟩

mutual

/-- One type off the front of a text. -/
def takeType (scope : List String) (s : List Char) : Except TypeTextFault (Taken StaticType s) :=
  match h₁ : eat ['?'] s with
  | some rest =>
    have hrest := length_of_eat (by simp) h₁
    match h₂ : eat "extends".toList rest with
    | some bound =>
      have hbound := length_of_eat (by decide) h₂
      match takeType scope bound with
      | .error e => .error e
      | .ok t => .ok ⟨t.value, t.rest, by have := t.shorter; omega⟩
    | none =>
      match h₃ : eat "super".toList rest with
      | some bound =>
        have hbound := length_of_eat (by decide) h₃
        match takeType scope bound with
        | .error e => .error e
        | .ok t => .ok ⟨.object, t.rest, by have := t.shorter; omega⟩
      | none => .ok ⟨.object, rest, hrest⟩
  | none =>
    match takeName s with
    | none => .error .expectedName
    | some name =>
      have hname := name.shorter
      match h₄ : eat ['<'] name.rest with
      | none => .ok (afterBrackets (named scope name.value) name.rest hname)
      | some inner =>
        have hinner := length_of_eat (by simp) h₄
        match takeArgs scope inner with
        | .error e => .error e
        | .ok args =>
          .ok (afterBrackets ⟨(named scope name.value).desc, args.value⟩ args.rest
            (by have := args.shorter; omega))
termination_by (s.length, 0)

/-- Types between commas up to a closing angle bracket. -/
def takeArgs (scope : List String) (s : List Char) :
    Except TypeTextFault (Taken (List StaticType) s) :=
  match takeType scope s with
  | .error e => .error e
  | .ok t =>
    have ht := t.shorter
    match h₁ : eat ['>'] t.rest with
    | some rest =>
      have hrest := length_of_eat (by simp) h₁
      .ok ⟨[t.value], rest, by omega⟩
    | none =>
      match h₂ : eat [','] t.rest with
      | none => .error .expectedSeparator
      | some more =>
        have hmore := length_of_eat (by simp) h₂
        match takeArgs scope more with
        | .error e => .error e
        | .ok ts => .ok ⟨t.value :: ts.value, ts.rest, by have := ts.shorter; omega⟩
termination_by (s.length, 1)

end

/-- Reads a text that holds one type and nothing else. -/
def parse (scope : List String) (s : List Char) : Except TypeTextFault StaticType :=
  match takeType scope s with
  | .error e => .error e
  | .ok t => if (trimStart t.rest).isEmpty then .ok t.value else .error .unexpectedInput

end TypeText

end JavaCallGraph
