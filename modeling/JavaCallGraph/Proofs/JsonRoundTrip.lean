import JavaCallGraph.Json.Shape
import JavaCallGraph.Json.Writer
import Mathlib.Data.List.TakeWhile

/-!
# Reading back written JSON

A value that holds only texts and whole numbers is read back from its written form. The written
form is first cut into the tokens of the value, whatever the indentation, and the machine then
takes those tokens from any state that waits for a value to the one that has it.
-/

namespace JavaCallGraph.Json

/-! ### Numbers -/

theorem decimal_toDigits (n : Nat) : Text.decimal (Nat.toDigits 10 n) = n := by
  have hfold : Text.decimal (Nat.toDigits 10 n) = Nat.ofDigitChars 10 (Nat.toDigits 10 n) 0 := by
    simp only [Text.decimal, Nat.ofDigitChars, Nat.mul_comm 10]
  rw [hfold, Nat.ofDigitChars_ten_toDigits]

theorem exists_toDigits_eq_cons {n : Nat} (hn : 0 < n) :
    ∃ c cs, Nat.toDigits 10 n = c :: cs ∧ c ≠ '0' := by
  induction n using Nat.strongRecOn with
  | ind n ih =>
    rw [Nat.toDigits_eq_if (by decide)]
    split
    · exact ⟨n.digitChar, [], rfl, by simpa using Nat.ne_of_gt hn⟩
    · obtain ⟨c, cs, hcs, hc⟩ := ih (n / 10) (by omega) (by omega)
      exact ⟨c, cs ++ [(n % 10).digitChar], by rw [hcs]; rfl, hc⟩

theorem isWhole_toDigits (n : Nat) : isWhole (Nat.toDigits 10 n) := by
  rcases Nat.eq_zero_or_pos n with rfl | hn
  · decide
  · obtain ⟨c, cs, hcs, hc⟩ := exists_toDigits_eq_cons hn
    have hall : (c :: cs).all Char.isDigit :=
      List.all_eq_true.mpr fun d hd =>
        Nat.isDigit_of_mem_toDigits (by decide) (by decide) (hcs ▸ hd)
    rw [hcs, isWhole]
    · exact hall
    · simp
    · rintro rest heq
      exact hc (List.cons.inj heq).1

theorem atom?_toDigits (n : Nat) : atom? (Nat.toDigits 10 n) = some (.natural n) := by
  have hdigits : ∀ c ∈ Nat.toDigits 10 n, c.isDigit :=
    fun c hc => Nat.isDigit_of_mem_toDigits (by decide) (by decide) hc
  have hwhole : (Nat.toDigits 10 n).takeWhile Char.isDigit = Nat.toDigits 10 n :=
    List.takeWhile_eq_self_iff.mpr hdigits
  have htail : (Nat.toDigits 10 n).dropWhile Char.isDigit = [] :=
    List.dropWhile_eq_nil_iff.mpr hdigits
  have hword (word : List Char) (c : Char) (hc : c ∈ word) (hdigit : c.isDigit = false) :
      (Nat.toDigits 10 n == word) = false := by
    rw [beq_eq_false_iff_ne]
    rintro rfl
    simp [hdigits c hc] at hdigit
  have hminus : ∀ rest, Nat.toDigits 10 n ≠ '-' :: rest := by
    intro rest heq
    have := hdigits '-' (heq ▸ List.mem_cons_self)
    revert this
    decide
  rw [atom?, hword _ 'n' (by decide) (by decide), hword _ 't' (by decide) (by decide),
    hword _ 'f' (by decide) (by decide)]
  simp only [Bool.false_eq_true, if_false]
  unfold number?
  split
  rename_i signed s heq
  split at heq
  · next rest h => exact absurd h (hminus rest)
  · cases heq
    dsimp only
    rw [hwhole, htail, isWhole_toDigits, decimal_toDigits]
    rfl

/-! ### Strings -/

theorem hexValue?_hexDigit : ∀ n < 16, Text.hexValue? (hexDigit n) = some n := by decide

theorem unit?_hexDigit {n : Nat} (hn : n < 256) :
    unit? '0' '0' (hexDigit (n / 16)) (hexDigit (n % 16)) = some n := by
  have hhigh := hexValue?_hexDigit (n / 16) (by omega)
  have hlow := hexValue?_hexDigit (n % 16) (by omega)
  have hzero : Text.hexValue? '0' = some 0 := by decide
  simp only [unit?, Text.hexadecimal?, List.foldlM_cons, List.foldlM_nil, hhigh, hlow, hzero]
  simp
  omega

theorem escapeChar_cases (c : Char) :
    (∃ e, escapeChar c = ['\\', e] ∧ simpleEscape? e = some c ∧ e ≠ 'u') ∨
    (c.toNat < 0x20 ∧ escapeChar c = ['\\', 'u', '0', '0', hexDigit (c.toNat / 16),
      hexDigit (c.toNat % 16)]) ∨
    (c ≠ '"' ∧ c ≠ '\\' ∧ ¬ c.toNat < 0x20 ∧ escapeChar c = [c]) := by
  unfold escapeChar
  split
  · exact .inl ⟨'"', rfl, rfl, by decide⟩
  · exact .inl ⟨'\\', rfl, rfl, by decide⟩
  · exact .inl ⟨'b', rfl, rfl, by decide⟩
  · exact .inl ⟨'f', rfl, rfl, by decide⟩
  · exact .inl ⟨'n', rfl, rfl, by decide⟩
  · exact .inl ⟨'r', rfl, rfl, by decide⟩
  · exact .inl ⟨'t', rfl, rfl, by decide⟩
  · next hquote hslash _ _ _ _ _ =>
    split
    · next hc => exact .inr (.inl ⟨hc, rfl⟩)
    · next hc => exact .inr (.inr ⟨hquote, hslash, hc, rfl⟩)

theorem stringSpan_cons {c : Char} (hquote : c ≠ '"') (hslash : c ≠ '\\') (rest : List Char) :
    stringSpan (c :: rest) = (stringSpan rest).map (· + 1) := by
  rw [stringSpan]
  · simpa using hquote
  · intro d tail heq
    exact absurd heq hslash

theorem stringSpan_escape (s rest : List Char) :
    stringSpan (s.flatMap escapeChar ++ '"' :: rest) = some (s.flatMap escapeChar).length := by
  induction s with
  | nil => rfl
  | cons c s ih =>
    have hhex : ∀ n < 16, hexDigit n ≠ '"' ∧ hexDigit n ≠ '\\' := by decide
    rw [List.flatMap_cons, List.append_assoc]
    rcases escapeChar_cases c with ⟨e, he, -, -⟩ | ⟨hc, he⟩ | ⟨hquote, hslash, -, he⟩
    · simp [he, stringSpan, ih]
    · obtain ⟨hquote, hslash⟩ := hhex (c.toNat / 16) (by omega)
      obtain ⟨hquote', hslash'⟩ := hhex (c.toNat % 16) (by omega)
      rw [he]
      simp only [List.cons_append, List.nil_append, List.length_cons]
      rw [stringSpan, stringSpan_cons (by decide) (by decide),
        stringSpan_cons (by decide) (by decide), stringSpan_cons hquote hslash,
        stringSpan_cons hquote' hslash', ih]
      simp
    · rw [he, List.singleton_append, stringSpan_cons hquote hslash, ih]
      simp

theorem unescape_simple {e c : Char} (he : simpleEscape? e = some c) (hu : e ≠ 'u')
    (rest : List Char) :
    unescape ('\\' :: e :: rest) = (unescape rest).map (·.map (c :: ·)) := by
  rw [unescape, he]
  · intro a b c d e' f g h tail heq
    exact absurd heq hu
  · intro a b c d tail heq
    exact absurd heq hu

-- One escaped unit can be followed by another one, with which it might be a surrogate pair.
theorem unescape_unit_cases (a b c d : Char) (rest : List Char) :
    (∃ e f g h tail, rest = '\\' :: 'u' :: e :: f :: g :: h :: tail) ∨
    unescape ('\\' :: 'u' :: a :: b :: c :: d :: rest) =
      match unit? a b c d with
      | some u => (unescape rest).map fun tail =>
          if isHighSurrogate u || isLowSurrogate u then none else tail.map (Char.ofNat u :: ·)
      | none => none := by
  by_cases hpair : ∃ e f g h tail, rest = '\\' :: 'u' :: e :: f :: g :: h :: tail
  · exact .inl hpair
  · have hlone (e f g h : Char) (tail : List Char) :
        rest = '\\' :: 'u' :: e :: f :: g :: h :: tail → False :=
      fun heq => hpair ⟨e, f, g, h, tail, heq⟩
    exact .inr (unescape.eq_3 a b c d rest hlone)

theorem isSome_unit?_of_unescape {a b c d : Char} {rest : List Char} {text : Option (List Char)}
    (h : unescape ('\\' :: 'u' :: a :: b :: c :: d :: rest) = some text) :
    (unit? a b c d).isSome := by
  cases hunit : unit? a b c d with
  | some u => rfl
  | none =>
    rcases unescape_unit_cases a b c d rest with ⟨e, f, g, i, tail, rfl⟩ | hrest
    · rw [unescape, hunit] at h
      cases h
    · rw [hrest, hunit] at h
      cases h

theorem unescape_unit {a b c d : Char} {u : Nat} (hu : unit? a b c d = some u) (hlow : u < 0xD800)
    {rest : List Char} {text : Option (List Char)} (hrest : unescape rest = some text) :
    unescape ('\\' :: 'u' :: a :: b :: c :: d :: rest) = some (text.map (Char.ofNat u :: ·)) := by
  have hhalf : isHighSurrogate u = false ∧ isLowSurrogate u = false := by
    simp only [isHighSurrogate, isLowSurrogate, Bool.and_eq_false_iff, decide_eq_false_iff_not]
    omega
  rcases unescape_unit_cases a b c d rest with ⟨e, f, g, i, tail, rfl⟩ | heq
  · obtain ⟨v, hv⟩ := Option.isSome_iff_exists.mp (isSome_unit?_of_unescape hrest)
    rw [unescape, hu, hv]
    simp [hhalf, hrest]
  · rw [heq, hu]
    simp [hhalf, hrest]

theorem unescape_literal {c : Char} (hslash : c ≠ '\\') (hc : ¬ c.toNat < 0x20)
    (rest : List Char) : unescape (c :: rest) = (unescape rest).map (·.map (c :: ·)) := by
  rw [unescape]
  · simp [hslash, hc]
  · intro _ _ _ _ _ _ _ _ _ heq
    exact absurd heq hslash
  · intro _ _ _ _ _ heq
    exact absurd heq hslash
  · intro _ _ heq
    exact absurd heq hslash

theorem unescape_escape (s : List Char) : unescape (s.flatMap escapeChar) = some (some s) := by
  induction s with
  | nil => rfl
  | cons c s ih =>
    rw [List.flatMap_cons]
    rcases escapeChar_cases c with ⟨e, he, hsimple, hu⟩ | ⟨hc, he⟩ | ⟨-, hslash, hc, he⟩
    · rw [he]
      simp [unescape_simple hsimple hu, ih]
    · rw [he]
      have hunit := unescape_unit (unit?_hexDigit (by omega : c.toNat < 256)) (by omega) ih
      rw [Char.ofNat_toNat] at hunit
      exact hunit
    · rw [he, List.singleton_append, unescape_literal hslash hc, ih]
      rfl

/-! ### Cutting a text into tokens -/

section Tokens

variable {c : Char} {rest : List Char} (found : List Token)

/-- The text does not go on with the word before it. -/
def EndsWord (rest : List Char) : Prop := ∀ c ∈ rest.head?, isWordChar c = false

theorem tokens_space (hc : isSpace c) : tokens found (c :: rest) = tokens found rest := by
  rw [tokens, if_pos hc]

theorem tokens_indent (level : Nat) :
    tokens found ((indent level).toList ++ rest) = tokens found rest := by
  rw [indent, String.toList_ofList]
  induction 2 * level with
  | zero => rfl
  | succ n ih => rw [List.replicate_succ, List.cons_append, tokens_space found (by decide), ih]

theorem tokens_punctuation {t : Token} (hspace : isSpace c = false)
    (ht : punctuation? c = some t) : tokens found (c :: rest) = tokens (t :: found) rest := by
  rw [tokens, if_neg (by simp [hspace]), ht]

theorem tokens_quote (text : String) :
    tokens found ((quote text).toList ++ rest) = tokens (.string (some text) :: found) rest := by
  have hspan := stringSpan_escape text.toList rest
  have htext := unescape_escape text.toList
  rw [quote, String.toList_ofList, List.append_assoc, List.cons_append, List.singleton_append,
    tokens]
  generalize text.toList.flatMap escapeChar = body at hspan htext ⊢
  have hafter : (body ++ '"' :: rest).drop (body.length + 1) = rest := by
    simp [List.drop_append]
  simp only [show isSpace '"' = false from rfl, show punctuation? '"' = none from rfl, hspan,
    Bool.false_eq_true, if_false, beq_self_eq_true, if_true]
  rw [List.take_left, htext, hafter]
  simp

theorem tokens_word {word : List Char} {value : Json} (hword : ∀ d ∈ c :: word, isWordChar d)
    (hvalue : atom? (c :: word) = some value) (hrest : EndsWord rest) :
    tokens found (c :: word ++ rest) = tokens (.atom value :: found) rest := by
  have hc (d : Char) (hd : isWordChar d = false) : c ≠ d := by
    rintro rfl
    simp [hword c List.mem_cons_self] at hd
  have hspace : isSpace c = false := by
    simp [isSpace, hc ' ' (by decide), hc '\n' (by decide), hc '\t' (by decide),
      hc '\r' (by decide)]
  have hpunctuation : punctuation? c = none := by
    unfold punctuation?
    split
    · exact absurd rfl (hc '[' (by decide))
    · exact absurd rfl (hc ']' (by decide))
    · exact absurd rfl (hc '\x7b' (by decide))
    · exact absurd rfl (hc '\x7d' (by decide))
    · exact absurd rfl (hc ',' (by decide))
    · exact absurd rfl (hc ':' (by decide))
    · rfl
  have hend : rest.takeWhile isWordChar = [] := by
    cases rest with
    | nil => rfl
    | cons d rest => simp [hrest d rfl]
  have htake : (word ++ rest).takeWhile isWordChar = word := by
    rw [List.takeWhile_append_of_pos fun d hd => hword d (List.mem_cons_of_mem c hd), hend,
      List.append_nil]
  rw [List.cons_append, tokens, if_neg (by simp [hspace]), hpunctuation]
  dsimp only
  rw [if_neg (by simpa using hc '"' (by decide)), htake, hvalue, List.drop_left]

end Tokens

/-! ### The tokens of a value -/

mutual

def toTokens : Json → List Token
  | .null => [.atom .null]
  | .bool value => [.atom (.bool value)]
  | .natural value => [.atom (.natural value)]
  | .otherNumber => [.atom .otherNumber]
  | .string text => [.string text]
  | .array items => .openArray :: ((itemTokens items).tail ++ [.closeArray])
  | .object members => .openObject :: ((memberTokens members).tail ++ [.closeObject])

def itemTokens : List Json → List Token
  | [] => []
  | item :: items => .comma :: (toTokens item ++ itemTokens items)

def memberTokens : List (Option String × Json) → List Token
  | [] => []
  | (name, value) :: members =>
    .comma :: .string name :: .colon :: (toTokens value ++ memberTokens members)

end

mutual

def IsPlain : Json → Prop
  | .null => True
  | .bool _ => True
  | .natural _ => True
  | .otherNumber => False
  | .string text => text.isSome
  | .array items => ArePlain items
  | .object members => MembersPlain members

def ArePlain : List Json → Prop
  | [] => True
  | item :: items => IsPlain item ∧ ArePlain items

def MembersPlain : List (Option String × Json) → Prop
  | [] => True
  | (name, value) :: members => name.isSome ∧ IsPlain value ∧ MembersPlain members

end

theorem arePlain_iff {items : List Json} : ArePlain items ↔ ∀ item ∈ items, item.IsPlain := by
  induction items with
  | nil => simp [ArePlain]
  | cons item items ih => simp [ArePlain, ih]

theorem membersPlain_iff {members : List (Option String × Json)} :
    MembersPlain members ↔ ∀ m ∈ members, m.1.isSome ∧ m.2.IsPlain := by
  induction members with
  | nil => simp [MembersPlain]
  | cons m members ih => simp [MembersPlain, ih, and_assoc]

theorem toList_intercalate_cons (separator part : String) (parts : List String) :
    (separator.intercalate (part :: parts)).toList =
      part.toList ++ parts.flatMap fun p => separator.toList ++ p.toList := by
  induction parts generalizing part with
  | nil => simp
  | cons p parts ih => rw [String.intercalate_cons_cons]; simp [ih]

def moreLines (level : Nat) (parts : List String) : List Char :=
  parts.flatMap fun part => ',' :: '\n' :: ((indent level).toList ++ part.toList)

theorem bracket_nil (opening closing : String) (level : Nat) :
    bracket opening closing level [] = opening ++ closing := rfl

theorem toList_bracket_cons (opening closing : String) (level : Nat) (part : String)
    (parts : List String) : (bracket opening closing level (part :: parts)).toList =
      opening.toList ++ '\n' :: ((indent (level + 1)).toList ++ (part.toList ++
        (moreLines (level + 1) parts ++ '\n' :: ((indent level).toList ++ closing.toList)))) := by
  rw [bracket, if_neg (by simp)]
  simp only [String.toList_append, List.map_cons, toList_intercalate_cons, List.flatMap_map,
    moreLines, List.append_assoc]
  rfl

theorem endsWord_moreLines (level : Nat) (parts : List String) (rest : List Char) :
    EndsWord (moreLines level parts ++ '\n' :: rest) := by
  cases parts with
  | nil =>
    rintro c ⟨⟩
    decide
  | cons part parts =>
    rintro c ⟨⟩
    decide

mutual

theorem tokens_render (level : Nat) : (v : Json) → v.IsPlain → ∀ (found : List Token)
    (rest : List Char), EndsWord rest →
    tokens found ((render level v).toList ++ rest) = tokens ((toTokens v).reverse ++ found) rest
  | .null, _, found, rest, hrest => by
    rw [render, show "null".toList = ['n', 'u', 'l', 'l'] from rfl,
      tokens_word found (List.all_eq_true.mp rfl) (show _ = some .null by rfl) hrest]
    rfl
  | .bool true, _, found, rest, hrest => by
    rw [render, if_pos rfl, show "true".toList = ['t', 'r', 'u', 'e'] from rfl,
      tokens_word found (List.all_eq_true.mp rfl) (show _ = some (.bool true) by rfl) hrest]
    rfl
  | .bool false, _, found, rest, hrest => by
    rw [render, if_neg (by decide), show "false".toList = ['f', 'a', 'l', 's', 'e'] from rfl,
      tokens_word found (List.all_eq_true.mp rfl) (show _ = some (.bool false) by rfl) hrest]
    rfl
  | .natural value, _, found, rest, hrest => by
    have hdigits : (render level (.natural value)).toList = Nat.toDigits 10 value := by
      rw [render, Nat.toString_eq_ofList_toDigits, String.toList_ofList]
    obtain ⟨c, cs, hcs⟩ := List.exists_cons_of_ne_nil (Nat.toDigits_ne_nil (n := value) (b := 10))
    have hword : ∀ d ∈ c :: cs, isWordChar d := by
      intro d hd
      have hdigit := Nat.isDigit_of_mem_toDigits (by decide) (by decide) (hcs ▸ hd)
      simp [isWordChar, Char.isAlphanum, hdigit]
    rw [hdigits, hcs, tokens_word found hword (hcs ▸ atom?_toDigits value) hrest]
    rfl
  | .otherNumber, hv, _, _, _ => hv.elim
  | .string (some text), _, found, rest, _ => tokens_quote found text
  | .string none, hv, _, _, _ => by cases hv
  | .array [], _, found, rest, _ => by
    rw [render, renderItems, bracket_nil, show ("[" ++ "]").toList = ['[', ']'] from rfl]
    simp only [List.cons_append, List.nil_append]
    rw [tokens_punctuation found rfl rfl, tokens_punctuation _ rfl rfl]
    rfl
  | .array (item :: items), hv, found, rest, hrest => by
    rw [render, renderItems, toList_bracket_cons]
    simp only [List.append_assoc, List.cons_append]
    change tokens found ('[' :: '\n' :: _) = _
    rw [tokens_punctuation found rfl rfl, tokens_space _ rfl, tokens_indent,
      tokens_render (level + 1) item hv.1 _ _ (endsWord_moreLines _ _ _),
      tokens_renderItems (level + 1) items hv.2, tokens_indent]
    change tokens _ (']' :: rest) = _
    rw [tokens_punctuation _ rfl rfl]
    simp [toTokens, itemTokens]
  | .object [], _, found, rest, _ => by
    rw [render, renderMembers, bracket_nil,
      show ("\x7b" ++ "\x7d").toList = ['\x7b', '\x7d'] from rfl]
    simp only [List.cons_append, List.nil_append]
    rw [tokens_punctuation found rfl rfl, tokens_punctuation _ rfl rfl]
    rfl
  | .object ((none, value) :: members), hv, _, _, _ => by cases hv.1
  | .object ((some name, value) :: members), hv, found, rest, hrest => by
    rw [render, renderMembers, toList_bracket_cons]
    simp only [String.toList_append, Option.getD_some, show ": ".toList = [':', ' '] from rfl,
      List.append_assoc, List.cons_append, List.nil_append]
    change tokens found ('\x7b' :: '\n' :: _) = _
    rw [tokens_punctuation found rfl rfl, tokens_space _ rfl, tokens_indent, tokens_quote,
      tokens_punctuation _ rfl rfl, tokens_space _ rfl,
      tokens_render (level + 1) value hv.2.1 _ _ (endsWord_moreLines _ _ _),
      tokens_renderMembers (level + 1) members hv.2.2, tokens_indent]
    change tokens _ ('\x7d' :: rest) = _
    rw [tokens_punctuation _ rfl rfl]
    simp [toTokens, memberTokens]

theorem tokens_renderItems (level : Nat) : (items : List Json) → ArePlain items →
    ∀ (found : List Token) (rest : List Char),
    tokens found (moreLines level (renderItems level items) ++ '\n' :: rest) =
      tokens ((itemTokens items).reverse ++ found) rest
  | [], _, found, rest => tokens_space found rfl
  | item :: items, hv, found, rest => by
    rw [renderItems, moreLines, List.flatMap_cons, ← moreLines]
    simp only [List.append_assoc, List.cons_append]
    rw [tokens_punctuation found rfl rfl, tokens_space _ rfl, tokens_indent,
      tokens_render level item hv.1 _ _ (endsWord_moreLines _ _ _),
      tokens_renderItems level items hv.2]
    simp [itemTokens]

theorem tokens_renderMembers (level : Nat) : (members : List (Option String × Json)) →
    MembersPlain members → ∀ (found : List Token) (rest : List Char),
    tokens found (moreLines level (renderMembers level members) ++ '\n' :: rest) =
      tokens ((memberTokens members).reverse ++ found) rest
  | [], _, found, rest => tokens_space found rfl
  | (none, value) :: members, hv, _, _ => by cases hv.1
  | (some name, value) :: members, hv, found, rest => by
    rw [renderMembers, moreLines, List.flatMap_cons, ← moreLines]
    simp only [String.toList_append, Option.getD_some, show ": ".toList = [':', ' '] from rfl,
      List.append_assoc, List.cons_append, List.nil_append]
    rw [tokens_punctuation found rfl rfl, tokens_space _ rfl, tokens_indent, tokens_quote,
      tokens_punctuation _ rfl rfl, tokens_space _ rfl,
      tokens_render level value hv.2.1 _ _ (endsWord_moreLines _ _ _),
      tokens_renderMembers level members hv.2.2]
    simp [memberTokens]

end

/-! ### The machine -/

/-- The state waits for a value, which `stack` then holds or follows. -/
def Awaits (s : State) (stack : List Frame) : Prop :=
  ∀ t, t ≠ .closeArray → step s t = startValue stack t

theorem awaits_value (stack : List Frame) : Awaits (.value stack) stack := fun _ _ => rfl

theorem awaits_firstItem (stack : List Frame) : Awaits (.firstItem stack) (.array [] :: stack) := by
  intro t ht
  cases t with
  | closeArray => exact absurd rfl ht
  | _ => rfl

theorem foldlM_cons_of_step {s s' : State} {t : Token} (h : step s t = some s')
    (rest : List Token) : (t :: rest).foldlM step s = rest.foldlM step s' := by
  rw [List.foldlM_cons, h]
  rfl

mutual

theorem run_toTokens : (v : Json) → ∀ {s : State} {stack : List Frame}, Awaits s stack →
    ∀ rest : List Token, (toTokens v ++ rest).foldlM step s = rest.foldlM step (.done v stack)
  | .null, _, _, hs, rest => foldlM_cons_of_step (hs _ (by simp)) rest
  | .bool _, _, _, hs, rest => foldlM_cons_of_step (hs _ (by simp)) rest
  | .natural _, _, _, hs, rest => foldlM_cons_of_step (hs _ (by simp)) rest
  | .otherNumber, _, _, hs, rest => foldlM_cons_of_step (hs _ (by simp)) rest
  | .string _, _, _, hs, rest => foldlM_cons_of_step (hs _ (by simp)) rest
  | .array [], _, _, hs, rest =>
    (foldlM_cons_of_step (hs .openArray (by simp)) _).trans (foldlM_cons_of_step rfl rest)
  | .array (item :: items), s, stack, hs, rest => by
    rw [toTokens, itemTokens, List.tail_cons, List.cons_append, List.append_assoc,
      List.append_assoc, foldlM_cons_of_step (hs .openArray (by simp)),
      run_toTokens item (awaits_firstItem stack), List.singleton_append, run_itemTokens items]
    rfl
  | .object [], _, _, hs, rest =>
    (foldlM_cons_of_step (hs .openObject (by simp)) _).trans (foldlM_cons_of_step rfl rest)
  | .object ((name, value) :: members), s, stack, hs, rest => by
    rw [toTokens, memberTokens, List.tail_cons, List.cons_append,
      foldlM_cons_of_step (hs .openObject (by simp))]
    simp only [List.cons_append, List.append_assoc]
    rw [foldlM_cons_of_step rfl, foldlM_cons_of_step rfl, run_toTokens value (awaits_value _),
      List.nil_append, run_memberTokens members]
    rfl

theorem run_itemTokens : (items : List Json) → ∀ (v : Json) (done : List Json)
    (stack : List Frame) (rest : List Token),
    (itemTokens items ++ .closeArray :: rest).foldlM step (.done v (.array done :: stack)) =
      rest.foldlM step (.done (.array (done.reverse ++ v :: items)) stack)
  | [], v, done, stack, rest => by
    rw [itemTokens, List.nil_append, foldlM_cons_of_step rfl, List.reverse_cons]
  | item :: items, v, done, stack, rest => by
    rw [itemTokens, List.cons_append, List.append_assoc, foldlM_cons_of_step rfl,
      run_toTokens item (awaits_value _), run_itemTokens items, List.reverse_cons,
      List.append_assoc, List.singleton_append]

theorem run_memberTokens : (members : List (Option String × Json)) → ∀ (v : Json)
    (done : List (Option String × Json)) (name : Option String) (stack : List Frame)
    (rest : List Token),
    (memberTokens members ++ .closeObject :: rest).foldlM step
        (.done v (.object done name :: stack)) =
      rest.foldlM step (.done (.object (done.reverse ++ (name, v) :: members)) stack)
  | [], v, done, name, stack, rest => by
    rw [memberTokens, List.nil_append, foldlM_cons_of_step rfl, List.reverse_cons]
  | (next, value) :: members, v, done, name, stack, rest => by
    rw [memberTokens]
    simp only [List.cons_append, List.append_assoc]
    rw [foldlM_cons_of_step rfl, foldlM_cons_of_step rfl, foldlM_cons_of_step rfl,
      run_toTokens value (awaits_value _), run_memberTokens members, List.reverse_cons,
      List.append_assoc, List.singleton_append]

end

/-- What is written is read back. -/
theorem parse_pretty {v : Json} (hv : v.IsPlain) : parse v.pretty = .ok v := by
  have htokens : tokens [] v.pretty.toList = some (toTokens v) := by
    have h := tokens_render 0 v hv [] [] (by rintro c ⟨⟩)
    rw [List.append_nil, List.append_nil] at h
    rw [pretty, h, tokens, List.reverse_reverse]
  have hrun : (toTokens v).foldlM step (.value []) = some (.done v []) := by
    have h := run_toTokens v (awaits_value []) []
    rwa [List.append_nil] at h
  have hparse : parse? v.pretty = some v := by
    simp [parse?, htokens, hrun]
  rw [parse, hparse]

end JavaCallGraph.Json
