import Std.Data.ExtTreeMap
import Std.Data.ExtTreeSet

/-!
# Erased type descriptors

A descriptor is the erased type of a parameter or a result: a primitive, a class or interface by
its qualified name, an array, or a type variable. This module holds its written form, its reader
and its order. Reading takes one descriptor off the front of a text and leaves the rest.
-/

namespace JavaCallGraph

abbrev NameSet := Std.ExtTreeSet String

abbrev NameMap (α : Type) := Std.ExtTreeMap String α

theorem size_erase_lt {α : Type} [Ord α] [Std.TransOrd α] {s : Std.ExtTreeSet α} {a : α}
    (h : a ∈ s) : (s.erase a).size < s.size := by
  have hs : s.size ≠ 0 := by
    intro hs
    rw [Std.ExtTreeSet.eq_empty_iff_size_eq_zero.mpr hs] at h
    simp at h
  rw [Std.ExtTreeSet.size_erase, if_pos (Std.ExtTreeSet.mem_iff_contains.mp h)]
  omega

theorem nodup_toList {α : Type} [Ord α] [Std.TransOrd α] (s : Std.ExtTreeSet α) :
    s.toList.Nodup := by
  refine (Std.ExtTreeSet.distinct_toList (t := s)).imp ?_
  rintro a b hab rfl
  exact hab Std.ReflCmp.compare_self

theorem toList_perm_cons_erase {α : Type} [Ord α] [Std.TransOrd α] [Std.LawfulEqOrd α]
    {s : Std.ExtTreeSet α} {a : α} (h : a ∈ s) : s.toList.Perm (a :: (s.erase a).toList) := by
  refine (List.perm_ext_iff_of_nodup (nodup_toList s) ?_).mpr ?_
  · rw [List.nodup_cons]
    exact ⟨by simp, nodup_toList _⟩
  · intro b
    by_cases hb : b = a
    · simp [hb, h]
    · simp [hb, Ne.symm hb]

/-- The sum of a weight over a set. -/
def totalWeight {α : Type} [Ord α] [Std.TransOrd α] (weight : α → Nat) (s : Std.ExtTreeSet α) :
    Nat :=
  (s.toList.map weight).foldr (· + ·) 0

theorem totalWeight_erase {α : Type} [Ord α] [Std.TransOrd α] [Std.LawfulEqOrd α]
    {weight : α → Nat} {s : Std.ExtTreeSet α} {a : α} (h : a ∈ s) :
    weight a + totalWeight weight (s.erase a) = totalWeight weight s := by
  have hsum := ((toList_perm_cons_erase h).map weight).sum_nat
  simpa [totalWeight, ← List.sum_eq_foldr] using hsum.symm

inductive Primitive where
  | boolean | byte | char | short | int | long | float | double | void
  deriving DecidableEq, Repr, Inhabited

namespace Primitive

def all : List Primitive := [boolean, byte, char, short, int, long, float, double, void]

def rank : Primitive → Nat
  | boolean => 0
  | byte => 1
  | char => 2
  | short => 3
  | int => 4
  | long => 5
  | float => 6
  | double => 7
  | void => 8

theorem rank_injective {p q : Primitive} (h : p.rank = q.rank) : p = q := by
  cases p <;> cases q <;> first | rfl | simp [rank] at h

def code : Primitive → Char
  | boolean => 'Z'
  | byte => 'B'
  | char => 'C'
  | short => 'S'
  | int => 'I'
  | long => 'J'
  | float => 'F'
  | double => 'D'
  | void => 'V'

def ofCode? (c : Char) : Option Primitive := all.find? (·.code == c)

@[simp] theorem ofCode?_code (p : Primitive) : ofCode? p.code = some p := by cases p <;> decide

theorem code_of_ofCode? {c : Char} {p : Primitive} (h : ofCode? c = some p) : p.code = c := by
  simpa using List.find?_some h

def keyword : Primitive → String
  | boolean => "boolean"
  | byte => "byte"
  | char => "char"
  | short => "short"
  | int => "int"
  | long => "long"
  | float => "float"
  | double => "double"
  | void => "void"

def ofKeyword? (word : String) : Option Primitive := all.find? (·.keyword == word)

/-- The class whose objects hold a boxed value; `void` has none. -/
def wrapper? : Primitive → Option String
  | boolean => some "java.lang.Boolean"
  | byte => some "java.lang.Byte"
  | char => some "java.lang.Character"
  | short => some "java.lang.Short"
  | int => some "java.lang.Integer"
  | long => some "java.lang.Long"
  | float => some "java.lang.Float"
  | double => some "java.lang.Double"
  | void => none

def ofWrapper? (name : String) : Option Primitive := all.find? (·.wrapper? == some name)

/-- Identity or widening conversion. -/
def widensTo : Primitive → Primitive → Bool
  | byte, b => b ∈ [byte, short, int, long, float, double]
  | short, b => b ∈ [short, int, long, float, double]
  | char, b => b ∈ [char, int, long, float, double]
  | int, b => b ∈ [int, long, float, double]
  | long, b => b ∈ [long, float, double]
  | float, b => b ∈ [float, double]
  | a, b => a == b

end Primitive

inductive Descriptor where
  | primitive (p : Primitive)
  | reference (name : String)
  | array (element : Descriptor)
  | typeVar (name : String)
  deriving DecidableEq, Repr, Inhabited

/-- What can be wrong with the text of a descriptor or of a signature. -/
inductive SignatureFault where
  | endOfDescriptor
  | unterminatedName
  | emptyTypeName
  | unknownCode (c : Char)
  | afterDescriptor
  | missingColon
  | emptyDeclaring
  | missingOpen
  | emptyMethodName
  | missingClose
  | afterReturn
  deriving DecidableEq, Repr

def SignatureFault.reason : SignatureFault → String
  | endOfDescriptor => "unexpected end of descriptor"
  | unterminatedName => "unterminated type name"
  | emptyTypeName => "empty type name"
  | unknownCode c => s!"unknown descriptor code '{c}'"
  | afterDescriptor => "trailing characters after descriptor"
  | missingColon => "missing ':'"
  | emptyDeclaring => "empty declaring type"
  | missingOpen => "missing '('"
  | emptyMethodName => "empty method name"
  | missingClose => "missing ')'"
  | afterReturn => "trailing characters after return type"

namespace Descriptor

def objectName : String := "java.lang.Object"

def stringName : String := "java.lang.String"

def object : Descriptor := .reference objectName

def void : Descriptor := .primitive .void

def referenceName? : Descriptor → Option String
  | .reference name => some name
  | _ => none

def isPrimitive : Descriptor → Bool
  | .primitive _ => true
  | _ => false

def isVoid (d : Descriptor) : Bool := d == void

def isTypeVar : Descriptor → Bool
  | .typeVar _ => true
  | _ => false

def element? : Descriptor → Option Descriptor
  | .array e => some e
  | _ => none

/-! ### Written form -/

def toChars : Descriptor → List Char
  | .primitive p => [p.code]
  | .reference name => 'Q' :: name.toList ++ [';']
  | .array e => '[' :: e.toChars
  | .typeVar name => 'T' :: name.toList ++ [';']

def encode (d : Descriptor) : String := String.ofList d.toChars

/-- A name up to its semicolon, and the text after it. -/
def takeName (s : List Char) : Except SignatureFault (String × List Char) :=
  match s.dropWhile (· != ';') with
  | [] => .error .unterminatedName
  | _ :: rest =>
    match s.takeWhile (· != ';') with
    | [] => .error .emptyTypeName
    | name => .ok (String.ofList name, rest)

/-- One descriptor off the front of a text. -/
def take : List Char → Except SignatureFault (Descriptor × List Char)
  | [] => .error .endOfDescriptor
  | c :: rest =>
    if c == 'Q' then
      match takeName rest with
      | .error e => .error e
      | .ok (name, rest) => .ok (.reference name, rest)
    else if c == 'T' then
      match takeName rest with
      | .error e => .error e
      | .ok (name, rest) => .ok (.typeVar name, rest)
    else if c == '[' then
      match take rest with
      | .error e => .error e
      | .ok (e, rest) => .ok (.array e, rest)
    else match Primitive.ofCode? c with
      | some p => .ok (.primitive p, rest)
      | none => .error (.unknownCode c)

theorem length_of_takeName {s rest : List Char} {name : String}
    (h : takeName s = .ok (name, rest)) : rest.length < s.length := by
  have hs : s.takeWhile (· != ';') ++ s.dropWhile (· != ';') = s := List.takeWhile_append_dropWhile
  unfold takeName at h
  split at h
  · simp at h
  · next hd =>
    split at h
    · simp at h
    · simp only [Except.ok.injEq, Prod.mk.injEq] at h
      rw [← hs, hd, h.2]
      simp
      omega

theorem length_of_take {s rest : List Char} {d : Descriptor} (h : take s = .ok (d, rest)) :
    rest.length < s.length := by
  induction s generalizing d rest with
  | nil => simp [take] at h
  | cons c cs ih =>
    rw [take] at h
    repeat' split at h
    all_goals simp only [reduceCtorEq, Except.ok.injEq, Prod.mk.injEq] at h
    · next hn => have := length_of_takeName hn; simp_all; omega
    · next hn => have := length_of_takeName hn; simp_all; omega
    · next hn => have := ih hn; simp_all; omega
    · simp [h.2]

/-- Reads a text that holds one descriptor and nothing else. -/
def decode (text : String) : Except SignatureFault Descriptor :=
  match take text.toList with
  | .error e => .error e
  | .ok (d, []) => .ok d
  | .ok (_, _ :: _) => .error .afterDescriptor

/-! ### Order -/

/-- Primitives come first, then classes and interfaces, arrays and type variables. -/
def cmp : Descriptor → Descriptor → Ordering
  | .primitive p, .primitive q => compare p.rank q.rank
  | .primitive _, _ => .lt
  | .reference _, .primitive _ => .gt
  | .reference a, .reference b => compare a b
  | .reference _, _ => .lt
  | .array a, .array b => cmp a b
  | .array _, .typeVar _ => .lt
  | .array _, _ => .gt
  | .typeVar a, .typeVar b => compare a b
  | .typeVar _, _ => .gt

instance : Ord Descriptor := ⟨cmp⟩

theorem cmp_swap (a b : Descriptor) : cmp a b = (cmp b a).swap := by
  induction a generalizing b with
  | array a ih => cases b <;> simp only [cmp, Ordering.swap_lt, Ordering.swap_gt, ← ih]
  | primitive p => cases b <;> simp only [cmp, Ordering.swap_gt]; exact Std.OrientedCmp.eq_swap
  | reference n =>
    cases b <;> simp only [cmp, Ordering.swap_gt, Ordering.swap_lt]
    exact Std.OrientedCmp.eq_swap
  | typeVar n => cases b <;> simp only [cmp, Ordering.swap_lt]; exact Std.OrientedCmp.eq_swap

instance : Std.OrientedOrd Descriptor := ⟨fun {a b} => cmp_swap a b⟩

theorem cmp_isLE_trans {a b c : Descriptor} (hab : (cmp a b).isLE) (hbc : (cmp b c).isLE) :
    (cmp a c).isLE := by
  induction a generalizing b c with
  | array a ih => cases b <;> cases c <;> simp_all [cmp]; exact ih hab hbc
  | primitive p =>
    cases b <;> cases c <;> simp_all [cmp]
    exact Std.TransCmp.isLE_trans hab hbc
  | reference n =>
    cases b <;> cases c <;> simp_all [cmp]
    exact Std.TransCmp.isLE_trans hab hbc
  | typeVar n =>
    cases b <;> cases c <;> simp_all [cmp]
    exact Std.TransCmp.isLE_trans hab hbc

instance : Std.TransOrd Descriptor where
  isLE_trans := cmp_isLE_trans

theorem eq_of_cmp_eq {a b : Descriptor} (h : cmp a b = .eq) : a = b := by
  induction a generalizing b with
  | array a ih => cases b <;> simp_all [cmp]; exact ih h
  | primitive p =>
    cases b <;> simp_all [cmp]
    exact Primitive.rank_injective h
  | reference n => cases b <;> simp_all [cmp]
  | typeVar n => cases b <;> simp_all [cmp]

instance : Std.LawfulEqOrd Descriptor where
  eq_of_compare := eq_of_cmp_eq

end Descriptor

/-! ### Erasure -/

/-- A type variable stands for any type but a primitive, since it erases to its bound. -/
def Descriptor.matchesErased : Descriptor → Descriptor → Bool
  | .typeVar _, .primitive _ => false
  | .primitive _, .typeVar _ => false
  | .typeVar _, _ => true
  | _, .typeVar _ => true
  | .array a, .array b => a.matchesErased b
  | a, b => a == b

/-- Parameter lists of one length that match at every position. -/
def Descriptor.allMatchErased (as bs : List Descriptor) : Bool :=
  as.length == bs.length && (as.zip bs).all fun (a, b) => a.matchesErased b

namespace Descriptor

theorem matchesErased_self (d : Descriptor) : d.matchesErased d := by
  induction d with
  | primitive p => simp [matchesErased]
  | reference name => simp [matchesErased]
  | array element ih => simpa [matchesErased] using ih
  | typeVar name => rfl

theorem matchesErased_comm (a b : Descriptor) : a.matchesErased b = b.matchesErased a := by
  induction a generalizing b with
  | primitive p => cases b <;> simp [matchesErased, BEq.comm]
  | reference name => cases b <;> simp [matchesErased, BEq.comm]
  | array element ih => cases b <;> simp [matchesErased, BEq.comm, ih]
  | typeVar name => cases b <;> simp [matchesErased]

theorem allMatchErased_cons (a b : Descriptor) (as bs : List Descriptor) :
    allMatchErased (a :: as) (b :: bs) = (a.matchesErased b && allMatchErased as bs) := by
  simp [allMatchErased, Bool.and_left_comm]

theorem allMatchErased_self (ds : List Descriptor) : allMatchErased ds ds := by
  induction ds with
  | nil => rfl
  | cons d ds ih => rw [allMatchErased_cons, matchesErased_self, ih, Bool.and_self]

theorem allMatchErased_comm (as bs : List Descriptor) :
    allMatchErased as bs = allMatchErased bs as := by
  induction as generalizing bs with
  | nil => cases bs <;> rfl
  | cons a as ih =>
    cases bs with
    | nil => rfl
    | cons b bs => rw [allMatchErased_cons, allMatchErased_cons, matchesErased_comm, ih]

end Descriptor

end JavaCallGraph
