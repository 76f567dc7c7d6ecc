import JavaCallGraph.Library.TypeText
import Mathlib.Data.List.TakeWhile

/-!
# The grammar of written types

A type is a wildcard, with an upper or a lower bound or without one, or a name with arguments in
angle brackets and pairs of brackets after it. A text of the grammar is the row of the tokens of
such an expression, with any white space before, between and after them. The reader accepts these
texts and no others, and it gives each the type that its expression stands for.
-/

namespace JavaCallGraph

namespace TypeText

open Text

/-! ### Tokens in a text -/

def IsTypeName (text : String) : Prop := text.toList ≠ [] ∧ ∀ c ∈ text.toList, isTypeNameChar c

inductive Lexeme where
  | wildcard
  | upper
  | lower
  | opening
  | comma
  | closing
  | brackets
  | name (text : String)

namespace Lexeme

def text : Lexeme → List Char
  | wildcard => ['?']
  | upper => "extends".toList
  | lower => "super".toList
  | opening => ['<']
  | comma => [',']
  | closing => ['>']
  | brackets => ['[', ']']
  | name text => text.toList

theorem text_name (text : String) : (name text).text = text.toList := rfl

def isName : Lexeme → Bool
  | name _ => true
  | _ => false

/-- A name goes as far as its characters do. The other tokens end by themselves. -/
def StopsAt (rest : List Char) : Lexeme → Prop
  | name text => IsTypeName text ∧ ∀ c ∈ rest.head?, isTypeNameChar c = false
  | _ => True

end Lexeme

/-- The token stands at the front of `s`, blanks before it left out, and `rest` is what follows. -/
def Takes (token : Lexeme) (s rest : List Char) : Prop :=
  ∃ gap, (∀ c ∈ gap, isBlank c) ∧ s = gap ++ (token.text ++ rest) ∧ token.StopsAt rest

def TakesAll : List Lexeme → List Char → List Char → Prop
  | [], s, rest => s = rest
  | token :: tokens, s, rest => ∃ mid, Takes token s mid ∧ TakesAll tokens mid rest

def Scans (tokens : List Lexeme) (s : List Char) : Prop :=
  ∃ rest, TakesAll tokens s rest ∧ ∀ c ∈ rest, isBlank c

/-! ### Expressions -/

/-- A type as the grammar has it. A name without arguments has no angle brackets. -/
inductive TypeExpr where
  | wildcard
  | upper (bound : TypeExpr)
  | lower (bound : TypeExpr)
  | named (name : String) (args : List TypeExpr) (rank : Nat)

namespace TypeExpr

mutual

def lexemes : TypeExpr → List Lexeme
  | wildcard => [.wildcard]
  | upper bound => .wildcard :: .upper :: bound.lexemes
  | lower bound => .wildcard :: .lower :: bound.lexemes
  | named name args rank => .name name :: (argLexemes args ++ List.replicate rank .brackets)

def argLexemes : List TypeExpr → List Lexeme
  | [] => []
  | arg :: args => .opening :: (arg.lexemes ++ moreLexemes args)

def moreLexemes : List TypeExpr → List Lexeme
  | [] => [.closing]
  | arg :: args => .comma :: (arg.lexemes ++ moreLexemes args)

end

mutual

/-- The type that an expression stands for. A wildcard is its upper bound, and arguments belong to
the innermost element of an array. -/
def value (scope : List String) : TypeExpr → StaticType
  | wildcard => .object
  | upper bound => bound.value scope
  | lower _ => .object
  | named name args rank =>
    StaticType.arrayOfRank ⟨(TypeText.named scope name).desc, values scope args⟩ rank

def values (scope : List String) : List TypeExpr → List StaticType
  | [] => []
  | arg :: args => arg.value scope :: values scope args

end

end TypeExpr

/-! ### Blanks are not part of names -/

/-- A blank is in no range of a table whose ranges are apart from those of the blanks. -/
theorem any_eq_false_of_blank {table : Array (Nat × Nat)} {n : Nat} {blank : Nat × Nat}
    {p : Nat × Nat → Bool} (hp : ∀ range, p range → range.1 ≤ n ∧ n ≤ range.2)
    (hblank : blank ∈ blankRanges) (hn : blank.1 ≤ n ∧ n ≤ blank.2)
    (htable : blankRanges.all fun blank => table.toList.all fun range =>
      blank.2 < range.1 || range.2 < blank.1) : table.any p = false := by
  rw [← Array.any_toList, List.any_eq_false]
  intro range hrange hmem
  have hapart := List.all_eq_true.mp (List.all_eq_true.mp htable blank hblank) range hrange
  have hin := hp range hmem
  simp only [Bool.or_eq_true, decide_eq_true_eq] at hapart
  omega

theorem isAlphanumeric_of_isBlank {c : Char} (h : isBlank c) : isAlphanumeric c = false := by
  obtain ⟨blank, hblank, hc⟩ := List.any_eq_true.mp h
  simp only [Bool.and_eq_true, decide_eq_true_eq] at hc
  unfold isAlphanumeric isAlphabetic
  split
  · have hranges : blankRanges.all fun blank => 0x80 ≤ blank.1 || blank.2 ≤ 0x20 := by decide
    have hlow : (List.range 0x21).all fun n => !(Char.ofNat n).isAlphanum := by decide
    have hmem : c.toNat ∈ List.range 0x21 := by
      have hrange := List.all_eq_true.mp hranges blank hblank
      simp only [Bool.or_eq_true, decide_eq_true_eq] at hrange
      rw [List.mem_range]
      omega
    simpa using List.all_eq_true.mp hlow c.toNat hmem
  · rw [Bool.or_eq_false_iff]
    constructor
    · apply any_eq_false_of_blank (fun range h => by simpa using h) hblank hc
      decide +kernel
    · apply any_eq_false_of_blank (fun range h => by simpa using h) hblank hc
      decide +kernel

theorem isTypeNameChar_of_isBlank {c : Char} (h : isBlank c) : isTypeNameChar c = false := by
  have hne (d : Char) (hd : isBlank d = false) : (c == d) = false := by
    rw [beq_eq_false_iff_ne]
    rintro rfl
    rw [hd] at h
    cases h
  simp only [isTypeNameChar, isNameChar, isAlphanumeric_of_isBlank h, hne '_' (by decide),
    hne '$' (by decide), hne '.' (by decide), Bool.or_false]

/-! ### Taking tokens -/

variable {token : Lexeme} {s rest : List Char}

theorem Lexeme.StopsAt.exists_text (h : token.StopsAt rest) :
    ∃ c cs, token.text = c :: cs ∧ isBlank c = false := by
  cases token with
  | name text =>
    cases htext : text.toList with
    | nil => exact absurd htext h.1.1
    | cons c cs =>
      refine ⟨c, cs, htext, ?_⟩
      have hname : isTypeNameChar c := h.1.2 c (by simp [htext])
      cases hblank : isBlank c with
      | false => rfl
      | true => rw [isTypeNameChar_of_isBlank hblank] at hname; cases hname
  | _ => exact ⟨_, _, rfl, by decide⟩

theorem takes_iff : Takes token s rest ↔ trimStart s = token.text ++ rest ∧ token.StopsAt rest := by
  constructor
  · rintro ⟨gap, hgap, rfl, hstop⟩
    obtain ⟨c, cs, htext, hc⟩ := hstop.exists_text
    refine ⟨?_, hstop⟩
    rw [trimStart, List.dropWhile_append_of_pos hgap, htext, List.cons_append,
      List.dropWhile_cons_of_neg (by simp [hc])]
  · rintro ⟨htrim, hstop⟩
    refine ⟨s.takeWhile isBlank, fun c hc => List.mem_takeWhile_imp hc, ?_, hstop⟩
    rw [← htrim]
    exact List.takeWhile_append_dropWhile.symm

theorem trimStart_eq_nil_iff : trimStart s = [] ↔ ∀ c ∈ s, isBlank c := List.dropWhile_eq_nil_iff

/-- What comes first in a text, blanks left out. -/
theorem Takes.head?_trimStart (h : Takes token s rest) :
    (trimStart s).head? = token.text.head? := by
  obtain ⟨htrim, hstop⟩ := takes_iff.mp h
  obtain ⟨c, cs, htext, -⟩ := hstop.exists_text
  rw [htrim, htext]
  rfl

/-- A text begins with one token only. -/
theorem not_takes_of_head? (h : Takes token s rest) {other : Lexeme}
    (hother : token.text.head? ≠ other.text.head?) (after : List Char) : ¬Takes other s after := by
  intro h'
  exact hother (h.head?_trimStart.symm.trans h'.head?_trimStart)

theorem Takes.length_lt (h : Takes token s rest) : rest.length < s.length := by
  obtain ⟨gap, -, rfl, hstop⟩ := h
  obtain ⟨c, cs, htext, -⟩ := hstop.exists_text
  simp only [htext, List.length_append, List.length_cons]
  omega

theorem takesAll_append {front back : List Lexeme} :
    TakesAll (front ++ back) s rest ↔ ∃ mid, TakesAll front s mid ∧ TakesAll back mid rest := by
  induction front generalizing s with
  | nil => simp [TakesAll]
  | cons token front ih =>
    simp only [List.cons_append, TakesAll, ih]
    constructor
    · rintro ⟨first, hfirst, mid, hfront, hback⟩
      exact ⟨mid, ⟨first, hfirst, hfront⟩, hback⟩
    · rintro ⟨mid, ⟨first, hfirst, hfront⟩, hback⟩
      exact ⟨first, hfirst, mid, hfront, hback⟩

/-! ### How the reader takes tokens -/

theorem eat_eq_some_iff {text : List Char} :
    eat text s = some rest ↔ trimStart s = text ++ rest := by
  unfold eat dropStart?
  split
  · next hprefix =>
    obtain ⟨after, hafter⟩ := List.isPrefixOf_iff_prefix.mp hprefix
    rw [← hafter, List.drop_left, Option.some.injEq, List.append_cancel_left_eq]
  · next hprefix =>
    simp only [reduceCtorEq, false_iff]
    intro htrim
    exact hprefix (List.isPrefixOf_iff_prefix.mpr ⟨rest, htrim.symm⟩)

/-- A token that is not a name is taken as its text. -/
theorem eat_eq_some (token : Lexeme) (hfixed : token.isName = false) :
    eat token.text s = some rest ↔ Takes token s rest := by
  rw [eat_eq_some_iff, takes_iff, and_iff_left]
  cases token with
  | name text => cases hfixed
  | _ => trivial

theorem eat_eq_none (token : Lexeme) (hfixed : token.isName = false) :
    eat token.text s = none ↔ ∀ rest, ¬Takes token s rest := by
  simp only [← eat_eq_some token hfixed, Option.eq_none_iff_forall_ne_some]

theorem takeName_eq_some {name : String} :
    (∃ taken, takeName s = some taken ∧ taken.value = name ∧ taken.rest = rest) ↔
      Takes (.name name) s rest := by
  rw [takes_iff]
  have hrun : (trimStart s).takeWhile isTypeNameChar ++ (trimStart s).dropWhile isTypeNameChar =
      trimStart s := List.takeWhile_append_dropWhile
  constructor
  · rintro ⟨taken, h, rfl, rfl⟩
    unfold takeName at h
    split at h
    · cases h
    · next c cs htake =>
      cases h
      rw [htake] at hrun
      refine ⟨by rw [Lexeme.text_name, String.toList_ofList, hrun], ⟨by simp, ?_⟩, ?_⟩
      · intro d hd
        rw [String.toList_ofList, ← htake] at hd
        exact List.mem_takeWhile_imp hd
      · intro d hd
        have hstop := List.head?_dropWhile_not isTypeNameChar (trimStart s)
        rw [Option.mem_def.mp hd] at hstop
        exact hstop
  · rintro ⟨htrim, ⟨hne, hchars⟩, hstop⟩
    have hrest : rest.takeWhile isTypeNameChar = [] ∧ rest.dropWhile isTypeNameChar = rest := by
      cases rest with
      | nil => exact ⟨rfl, rfl⟩
      | cons c cs => simp [hstop c rfl]
    have htake : (trimStart s).takeWhile isTypeNameChar = name.toList := by
      rw [htrim, Lexeme.text_name, List.takeWhile_append_of_pos hchars, hrest.1, List.append_nil]
    have hdrop : (trimStart s).dropWhile isTypeNameChar = rest := by
      rw [htrim, Lexeme.text_name, List.dropWhile_append_of_pos hchars, hrest.2]
    unfold takeName
    split
    · next hnil => exact absurd (htake.symm.trans hnil) hne
    · next c cs hcons =>
      have hname : String.ofList (c :: cs) = name := by
        rw [← hcons, htake, String.ofList_toList]
      exact ⟨_, rfl, hname, hdrop⟩

/-! ### The rules of the reader

The first tokens decide between the kinds of types, so each kind has a rule of its own. -/

def Reads (scope : List String) (s : List Char) (value : StaticType) (rest : List Char) : Prop :=
  ∃ taken, takeType scope s = .ok taken ∧ taken.value = value ∧ taken.rest = rest

def ReadsArgs (scope : List String) (s : List Char) (values : List StaticType)
    (rest : List Char) : Prop :=
  ∃ taken, takeArgs scope s = .ok taken ∧ taken.value = values ∧ taken.rest = rest

variable {scope : List String} {value : StaticType} {values : List StaticType}
  {after bound inner last : List Char} {name : String}

theorem reads_upper (hafter : Takes .wildcard s after) (hbound : Takes .upper after bound)
    (h : Reads scope bound value rest) : Reads scope s value rest := by
  obtain ⟨taken, htaken, rfl, rfl⟩ := h
  have hafter := (eat_eq_some .wildcard rfl).mpr hafter
  have hbound := (eat_eq_some .upper rfl).mpr hbound
  unfold Reads
  rw [takeType]
  split
  · next heq =>
    obtain rfl := Option.some.inj (hafter.symm.trans heq)
    split
    · next heq =>
      obtain rfl := Option.some.inj (hbound.symm.trans heq)
      rw [htaken]
      exact ⟨_, rfl, rfl, rfl⟩
    · next heq => cases hbound.symm.trans heq
  · next heq => cases hafter.symm.trans heq

theorem reads_lower (hafter : Takes .wildcard s after) (hbound : Takes .lower after bound)
    (h : Reads scope bound value rest) : Reads scope s .object rest := by
  obtain ⟨taken, htaken, rfl, rfl⟩ := h
  have hafter := (eat_eq_some .wildcard rfl).mpr hafter
  have hupper := (eat_eq_none .upper rfl).mpr (not_takes_of_head? hbound (by decide))
  have hbound := (eat_eq_some .lower rfl).mpr hbound
  unfold Reads
  rw [takeType]
  split
  · next heq =>
    obtain rfl := Option.some.inj (hafter.symm.trans heq)
    split
    · next heq => cases hupper.symm.trans heq
    · split
      · next heq =>
        obtain rfl := Option.some.inj (hbound.symm.trans heq)
        rw [htaken]
        exact ⟨_, rfl, rfl, rfl⟩
      · next heq => cases hbound.symm.trans heq
  · next heq => cases hafter.symm.trans heq

theorem reads_wildcard (hrest : Takes .wildcard s rest) (hupper : ∀ bound, ¬Takes .upper rest bound)
    (hlower : ∀ bound, ¬Takes .lower rest bound) : Reads scope s .object rest := by
  have hrest := (eat_eq_some .wildcard rfl).mpr hrest
  have hupper := (eat_eq_none .upper rfl).mpr hupper
  have hlower := (eat_eq_none .lower rfl).mpr hlower
  unfold Reads
  rw [takeType]
  split
  · next heq =>
    obtain rfl := Option.some.inj (hrest.symm.trans heq)
    split
    · next heq => cases hupper.symm.trans heq
    · split
      · next heq => cases hlower.symm.trans heq
      · exact ⟨_, rfl, rfl, rfl⟩
  · next heq => cases hrest.symm.trans heq

theorem eat_wildcard_of_name (hname : Takes (.name name) s after) : eat ['?'] s = none := by
  apply (eat_eq_none .wildcard rfl).mpr
  apply not_takes_of_head? hname
  have hchars := (takes_iff.mp hname).2.1.2
  intro hhead
  have hquery := hchars '?' (List.mem_of_mem_head? hhead)
  exact absurd hquery (by decide)

theorem reads_name (hname : Takes (.name name) s after)
    (hopening : ∀ inner, ¬Takes .opening after inner)
    (hbrackets : takeBrackets (named scope name) after = (value, rest)) :
    Reads scope s value rest := by
  have hwildcard := eat_wildcard_of_name hname
  have hopening := (eat_eq_none .opening rfl).mpr hopening
  obtain ⟨taken, htaken, rfl, rfl⟩ := takeName_eq_some.mpr hname
  unfold Reads
  rw [takeType]
  split
  · next heq => cases hwildcard.symm.trans heq
  · rw [htaken]
    dsimp only
    split
    · exact ⟨_, rfl, congrArg Prod.fst hbrackets, congrArg Prod.snd hbrackets⟩
    · next heq => cases hopening.symm.trans heq

theorem reads_applied (hname : Takes (.name name) s after) (hopening : Takes .opening after inner)
    (h : ReadsArgs scope inner values last)
    (hbrackets : takeBrackets ⟨(named scope name).desc, values⟩ last = (value, rest)) :
    Reads scope s value rest := by
  obtain ⟨args, hargs, rfl, rfl⟩ := h
  have hwildcard := eat_wildcard_of_name hname
  have hopening := (eat_eq_some .opening rfl).mpr hopening
  obtain ⟨taken, htaken, rfl, rfl⟩ := takeName_eq_some.mpr hname
  unfold Reads
  rw [takeType]
  split
  · next heq => cases hwildcard.symm.trans heq
  · rw [htaken]
    dsimp only
    split
    · next heq => cases hopening.symm.trans heq
    · next heq =>
      obtain rfl := Option.some.inj (hopening.symm.trans heq)
      rw [hargs]
      exact ⟨_, rfl, congrArg Prod.fst hbrackets, congrArg Prod.snd hbrackets⟩

theorem readsArgs_closing (h : Reads scope s value last) (hclosing : Takes .closing last rest) :
    ReadsArgs scope s [value] rest := by
  obtain ⟨taken, htaken, rfl, rfl⟩ := h
  have hclosing := (eat_eq_some .closing rfl).mpr hclosing
  unfold ReadsArgs
  rw [takeArgs, htaken]
  dsimp only
  split
  · next heq =>
    obtain rfl := Option.some.inj (hclosing.symm.trans heq)
    exact ⟨_, rfl, rfl, rfl⟩
  · next heq => cases hclosing.symm.trans heq

theorem readsArgs_comma (h : Reads scope s value last) (hcomma : Takes .comma last inner)
    (hmore : ReadsArgs scope inner values rest) : ReadsArgs scope s (value :: values) rest := by
  obtain ⟨taken, htaken, rfl, rfl⟩ := h
  obtain ⟨more, hmore, rfl, rfl⟩ := hmore
  have hclosing := (eat_eq_none .closing rfl).mpr (not_takes_of_head? hcomma (by decide))
  have hcomma := (eat_eq_some .comma rfl).mpr hcomma
  unfold ReadsArgs
  rw [takeArgs, htaken]
  dsimp only
  split
  · next heq => cases hclosing.symm.trans heq
  · split
    · next heq => cases hcomma.symm.trans heq
    · next heq =>
      obtain rfl := Option.some.inj (hcomma.symm.trans heq)
      rw [hmore]
      exact ⟨_, rfl, rfl, rfl⟩

/-! ### Brackets -/

theorem arrayOfRank_arrayOf (t : StaticType) (rank : Nat) :
    t.arrayOf.arrayOfRank rank = t.arrayOfRank (rank + 1) := by
  induction rank with
  | zero => rfl
  | succ rank ih => exact congrArg StaticType.arrayOf ih

theorem exists_rank_takeBrackets (t : StaticType) (s : List Char) :
    ∃ rank, (takeBrackets t s).1 = t.arrayOfRank rank ∧
      TakesAll (List.replicate rank .brackets) s (takeBrackets t s).2 := by
  fun_induction takeBrackets t s with
  | case1 t s h => exact ⟨0, rfl, rfl⟩
  | case2 t s rest h ih =>
    obtain ⟨rank, hvalue, hrest⟩ := ih
    refine ⟨rank + 1, ?_, rest, (eat_eq_some .brackets rfl).mp h, hrest⟩
    rw [hvalue, arrayOfRank_arrayOf]

theorem takeBrackets_of_takesAll {t : StaticType} {rank : Nat}
    (h : TakesAll (List.replicate rank .brackets) s rest)
    (hrest : ∀ after, ¬Takes .brackets rest after) :
    takeBrackets t s = (t.arrayOfRank rank, rest) := by
  induction rank generalizing t s with
  | zero =>
    obtain rfl : s = rest := h
    rw [takeBrackets]
    split
    · rfl
    · next heq => exact absurd ((eat_eq_some .brackets rfl).mp heq) (hrest _)
  | succ rank ih =>
    obtain ⟨mid, hmid, h⟩ := h
    have hmid := (eat_eq_some .brackets rfl).mpr hmid
    rw [takeBrackets]
    split
    · next heq => cases hmid.symm.trans heq
    · next heq =>
      obtain rfl := Option.some.inj (hmid.symm.trans heq)
      rw [ih h, arrayOfRank_arrayOf]

/-! ### What is read -/

theorem named_eq (scope : List String) (name : String) :
    named scope name = ⟨(named scope name).desc, []⟩ := by
  unfold named
  split
  · rfl
  · split <;> rfl

mutual

/-- What is read is an expression. -/
theorem Reads.exists_expr {s rest : List Char} {value : StaticType}
    (h : Reads scope s value rest) :
    ∃ e : TypeExpr, e.value scope = value ∧ TakesAll e.lexemes s rest := by
  obtain ⟨taken, h, rfl, rfl⟩ := h
  rw [takeType] at h
  split at h
  · next after hafter =>
    have hafter := (eat_eq_some .wildcard rfl).mp hafter
    split at h
    · next bound hbound =>
      have hbound := (eat_eq_some .upper rfl).mp hbound
      split at h
      · cases h
      · next inner hinner =>
        cases h
        have hless := hafter.length_lt
        have hless' := hbound.length_lt
        obtain ⟨e, hvalue, he⟩ := Reads.exists_expr ⟨inner, hinner, rfl, rfl⟩
        exact ⟨.upper e, hvalue, after, hafter, bound, hbound, he⟩
    · split at h
      · next bound hbound =>
        have hbound := (eat_eq_some .lower rfl).mp hbound
        split at h
        · cases h
        · next inner hinner =>
          cases h
          have hless := hafter.length_lt
          have hless' := hbound.length_lt
          obtain ⟨e, -, he⟩ := Reads.exists_expr ⟨inner, hinner, rfl, rfl⟩
          exact ⟨.lower e, rfl, after, hafter, bound, hbound, he⟩
      · cases h
        exact ⟨.wildcard, rfl, after, hafter, rfl⟩
  · split at h
    · cases h
    · next name hname =>
      have hname := takeName_eq_some.mp ⟨name, hname, rfl, rfl⟩
      split at h
      · cases h
        obtain ⟨rank, hvalue, hbrackets⟩ :=
          exists_rank_takeBrackets (named scope name.value) name.rest
        refine ⟨.named name.value [] rank, ?_, name.rest, hname, hbrackets⟩
        rw [TypeExpr.value, TypeExpr.values, ← named_eq, ← hvalue]
        rfl
      · next inner hinner =>
        have hinner := (eat_eq_some .opening rfl).mp hinner
        split at h
        · cases h
        · next args hargs =>
          cases h
          have hless := hname.length_lt
          have hless' := hinner.length_lt
          obtain ⟨arg, more, hvalues, hmore⟩ := ReadsArgs.exists_exprs ⟨args, hargs, rfl, rfl⟩
          obtain ⟨rank, hvalue, hbrackets⟩ :=
            exists_rank_takeBrackets ⟨(named scope name.value).desc, args.value⟩ args.rest
          refine ⟨.named name.value (arg :: more) rank, ?_, name.rest, hname,
            takesAll_append.mpr ⟨args.rest, ⟨inner, hinner, hmore⟩, hbrackets⟩⟩
          rw [TypeExpr.value, TypeExpr.values, hvalues, ← hvalue]
          rfl
termination_by (s.length, 0)

theorem ReadsArgs.exists_exprs {s rest : List Char} {values : List StaticType}
    (h : ReadsArgs scope s values rest) :
    ∃ (arg : TypeExpr) (args : List TypeExpr),
      arg.value scope :: TypeExpr.values scope args = values ∧
        TakesAll (arg.lexemes ++ TypeExpr.moreLexemes args) s rest := by
  obtain ⟨taken, h, rfl, rfl⟩ := h
  rw [takeArgs] at h
  split at h
  · cases h
  · next first hfirst =>
    obtain ⟨arg, hvalue, harg⟩ := Reads.exists_expr ⟨first, hfirst, rfl, rfl⟩
    have hless := first.shorter
    split at h
    · next hclosing =>
      have hclosing := (eat_eq_some .closing rfl).mp hclosing
      cases h
      refine ⟨arg, [], by rw [hvalue]; rfl, takesAll_append.mpr ⟨_, harg, _, hclosing, rfl⟩⟩
    · split at h
      · cases h
      · next inner hcomma =>
        have hcomma := (eat_eq_some .comma rfl).mp hcomma
        split at h
        · cases h
        · next others hothers =>
          cases h
          have hless' := hcomma.length_lt
          obtain ⟨next, args, hvalues, hmore⟩ := ReadsArgs.exists_exprs ⟨others, hothers, rfl, rfl⟩
          refine ⟨arg, next :: args, ?_, takesAll_append.mpr ⟨_, harg, inner, hcomma, hmore⟩⟩
          rw [hvalue, TypeExpr.values, hvalues]
termination_by (s.length, 1)

end

/-! ### What can be read -/

/-- A type ends before `rest`: the text ends, or a comma or a closing angle bracket comes. -/
def Closes (rest : List Char) : Prop := ∀ c ∈ (trimStart rest).head?, c = ',' ∨ c = '>'

theorem closes_of_blank (h : ∀ c ∈ rest, isBlank c) : Closes rest := by
  intro c hc
  rw [trimStart_eq_nil_iff.mpr h] at hc
  cases hc

theorem closes_of_takes (h : Takes token s rest) (htoken : token = .comma ∨ token = .closing) :
    Closes s := by
  intro c hc
  rw [h.head?_trimStart] at hc
  rcases htoken with rfl | rfl
  · exact .inl (Option.some.inj hc).symm
  · exact .inr (Option.some.inj hc).symm

theorem Closes.not_takes (h : Closes rest) {c : Char} (htoken : token.text.head? = some c)
    (hc : c ≠ ',' ∧ c ≠ '>') (after : List Char) : ¬Takes token rest after := by
  intro htakes
  have hfirst := h c (htakes.head?_trimStart.trans htoken)
  exact hfirst.elim hc.1 hc.2

/-- No arguments come where brackets do, or where the type ends. -/
theorem not_takes_opening {rank : Nat} (h : TakesAll (List.replicate rank .brackets) s rest)
    (hrest : Closes rest) (inner : List Char) : ¬Takes .opening s inner := by
  cases rank with
  | zero =>
    obtain rfl : s = rest := h
    exact hrest.not_takes rfl (by decide) inner
  | succ rank =>
    obtain ⟨mid, hmid, -⟩ := h
    exact not_takes_of_head? hmid (by decide) inner

mutual

/-- The tokens of an expression are read as its type where the type ends with them. -/
theorem reads_of_takesAll (e : TypeExpr) {s rest : List Char} (h : TakesAll e.lexemes s rest)
    (hrest : Closes rest) : Reads scope s (e.value scope) rest := by
  cases e with
  | wildcard =>
    obtain ⟨after, hafter, rfl⟩ := h
    exact reads_wildcard hafter (hrest.not_takes rfl (by decide)) (hrest.not_takes rfl (by decide))
  | upper bound =>
    obtain ⟨after, hafter, mid, hmid, h⟩ := h
    exact reads_upper hafter hmid (reads_of_takesAll bound h hrest)
  | lower bound =>
    obtain ⟨after, hafter, mid, hmid, h⟩ := h
    exact reads_lower hafter hmid (reads_of_takesAll bound h hrest)
  | named name args rank =>
    obtain ⟨after, hname, h⟩ := h
    obtain ⟨last, hargs, hbrackets⟩ := takesAll_append.mp h
    have htake (t : StaticType) : takeBrackets t last = (t.arrayOfRank rank, rest) :=
      takeBrackets_of_takesAll hbrackets (hrest.not_takes rfl (by decide))
    cases args with
    | nil =>
      obtain rfl : after = last := hargs
      apply reads_name hname (not_takes_opening hbrackets hrest)
      rw [htake, named_eq]
      rfl
    | cons arg args =>
      obtain ⟨inner, hinner, hargs⟩ := hargs
      exact reads_applied hname hinner (readsArgs_of_takesAll arg args hargs) (htake _)
termination_by sizeOf e

theorem readsArgs_of_takesAll (arg : TypeExpr) (args : List TypeExpr) {s rest : List Char}
    (h : TakesAll (arg.lexemes ++ TypeExpr.moreLexemes args) s rest) :
    ReadsArgs scope s (arg.value scope :: TypeExpr.values scope args) rest := by
  obtain ⟨last, harg, hmore⟩ := takesAll_append.mp h
  cases args with
  | nil =>
    obtain ⟨after, hclosing, rfl⟩ := hmore
    exact readsArgs_closing
      (reads_of_takesAll arg harg (closes_of_takes hclosing (.inr rfl))) hclosing
  | cons next args =>
    obtain ⟨inner, hcomma, hmore⟩ := hmore
    exact readsArgs_comma (reads_of_takesAll arg harg (closes_of_takes hcomma (.inl rfl))) hcomma
      (readsArgs_of_takesAll next args hmore)
termination_by sizeOf arg + sizeOf args

end

theorem parse_eq_ok {t : StaticType} :
    parse scope s = .ok t ↔ ∃ rest, Reads scope s t rest ∧ ∀ c ∈ rest, isBlank c := by
  unfold parse
  constructor
  · intro h
    split at h
    · cases h
    · next taken htaken =>
      split at h
      · next hempty =>
        cases h
        exact ⟨taken.rest, ⟨taken, htaken, rfl, rfl⟩,
          trimStart_eq_nil_iff.mp (List.isEmpty_iff.mp hempty)⟩
      · cases h
  · rintro ⟨rest, ⟨taken, htaken, rfl, rfl⟩, hblank⟩
    rw [htaken]
    dsimp only
    rw [trimStart_eq_nil_iff.mpr hblank]
    rfl

theorem parse_eq_ok_iff_scans {t : StaticType} :
    parse scope s = .ok t ↔ ∃ e : TypeExpr, Scans e.lexemes s ∧ e.value scope = t := by
  rw [parse_eq_ok]
  constructor
  · rintro ⟨rest, hread, hblank⟩
    obtain ⟨e, hvalue, htakes⟩ := hread.exists_expr
    exact ⟨e, ⟨rest, htakes, hblank⟩, hvalue⟩
  · rintro ⟨e, ⟨rest, htakes, hblank⟩, rfl⟩
    exact ⟨rest, reads_of_takesAll e htakes (closes_of_blank hblank), hblank⟩

end TypeText

end JavaCallGraph
