import JavaCallGraph.Library.MemberText
import JavaCallGraph.Proofs.Attempts

/-!
# Where texts of methods can be cut

The text of a method is cut by places: at the brackets of its type parameters, at the first opening
and the last closing parenthesis, and after the last character of the head that cannot be in a
name. All of these cuts can be made but two. The name is taken to start one byte after the
character before it, so that this character must have one byte only, and the closing parenthesis
may stand before the opening one.
-/

namespace JavaCallGraph.MemberText

open Text

variable {s front rest head name : List Char} {text : String}

/-! ### Parts -/

theorem part_eq_ok {start stop : Nat} {result : List Char} :
    part s start stop = .ok result ↔ slice? s start stop = some result := by
  unfold part
  split <;> simp [*]

theorem part_eq_uncuttable {start stop : Nat} :
    part s start stop = .error .uncuttable ↔ slice? s start stop = none := by
  unfold part
  split <;> simp [*]

theorem part_front (front rest : List Char) : part (front ++ rest) 0 (size front) = .ok front :=
  part_eq_ok.mpr (slice?_eq_some.mpr ⟨[], rest, rfl, rfl, Nat.zero_add _⟩)

theorem part_back (front rest : List Char) :
    part (front ++ rest) (size front) (size (front ++ rest)) = .ok rest :=
  part_eq_ok.mpr (slice?_eq_some.mpr ⟨front, [], by simp, rfl, (size_append front rest).symm⟩)

/-! ### Angle brackets -/

/-- The text closes every bracket that it opens and `depth` more, which are open before it, and
none that is not open. -/
def ClosesAll (depth : Nat) (s : List Char) : Prop :=
  s.count '<' + depth = s.count '>' ∧
    ∀ front, front <+: s → front.count '>' ≤ front.count '<' + depth

theorem closesAll_nil {depth : Nat} : ClosesAll depth [] ↔ depth = 0 := by
  simp [ClosesAll]

theorem closesAll_opening {depth : Nat} :
    ClosesAll depth ('<' :: s) ↔ ClosesAll (depth + 1) s := by
  unfold ClosesAll
  simp only [List.prefix_cons_iff]
  constructor
  · rintro ⟨hcount, hfront⟩
    refine ⟨by simp at hcount; omega, fun front h => ?_⟩
    have := hfront ('<' :: front) (.inr ⟨front, rfl, h⟩)
    simp at this
    omega
  · rintro ⟨hcount, hfront⟩
    refine ⟨by simp; omega, ?_⟩
    rintro _ (rfl | ⟨front, rfl, h⟩)
    · simp
    · have := hfront front h
      simp
      omega

theorem closesAll_closing {depth : Nat} :
    ClosesAll depth ('>' :: s) ↔ 0 < depth ∧ ClosesAll (depth - 1) s := by
  unfold ClosesAll
  simp only [List.prefix_cons_iff]
  constructor
  · rintro ⟨hcount, hfront⟩
    have hopen := hfront ['>'] (.inr ⟨[], rfl, List.nil_prefix⟩)
    simp at hcount hopen
    refine ⟨hopen, by omega, fun front h => ?_⟩
    have := hfront ('>' :: front) (.inr ⟨front, rfl, h⟩)
    simp at this
    omega
  · rintro ⟨hopen, hcount, hfront⟩
    refine ⟨by simp; omega, ?_⟩
    rintro _ (rfl | ⟨front, rfl, h⟩)
    · simp
    · have := hfront front h
      simp
      omega

theorem closesAll_other {c : Char} (hopening : c ≠ '<') (hclosing : c ≠ '>') {depth : Nat} :
    ClosesAll depth (c :: s) ↔ ClosesAll depth s := by
  unfold ClosesAll
  simp only [List.prefix_cons_iff, List.count_cons_of_ne hopening, List.count_cons_of_ne hclosing]
  refine and_congr_right fun _ => ⟨fun h front hfront => ?_, ?_⟩
  · have := h (c :: front) (.inr ⟨front, rfl, hfront⟩)
    rwa [List.count_cons_of_ne hopening, List.count_cons_of_ne hclosing] at this
  · rintro h _ (rfl | ⟨front, rfl, hfront⟩)
    · simp
    · rw [List.count_cons_of_ne hopening, List.count_cons_of_ne hclosing]
      exact h front hfront

/-- A bracket closes the innermost of `depth + 1` open ones `i` bytes into the text. -/
def ClosedAt (depth i : Nat) (s : List Char) : Prop :=
  ∃ inner rest, s = inner ++ '>' :: rest ∧ size inner = i ∧ ClosesAll depth inner

theorem closedAt_cons {c : Char} {depth i : Nat} : ClosedAt depth i (c :: s) ↔
    (c = '>' ∧ i = 0 ∧ depth = 0) ∨ ∃ inner rest, s = inner ++ '>' :: rest ∧
      c.utf8Size + size inner = i ∧ ClosesAll depth (c :: inner) := by
  constructor
  · rintro ⟨inner, rest, hs, rfl, hinner⟩
    cases inner with
    | nil =>
      cases hs
      exact .inl ⟨rfl, rfl, closesAll_nil.mp hinner⟩
    | cons d inner =>
      cases hs
      exact .inr ⟨inner, rest, rfl, rfl, hinner⟩
  · rintro (⟨rfl, rfl, hdepth⟩ | ⟨inner, rest, rfl, rfl, hinner⟩)
    · exact ⟨[], s, rfl, rfl, closesAll_nil.mpr hdepth⟩
    · exact ⟨c :: inner, rest, rfl, rfl, hinner⟩

theorem map_eq_some_iff_closedAt {c : Char} {found : Option Nat} {depth i : Nat}
    (h : ∀ j, found = some j ↔ ClosedAt depth j s) :
    found.map (c.utf8Size + ·) = some i ↔ ∃ inner rest, s = inner ++ '>' :: rest ∧
      c.utf8Size + size inner = i ∧ ClosesAll depth inner := by
  rw [Option.map_eq_some_iff]
  constructor
  · rintro ⟨j, hj, rfl⟩
    obtain ⟨inner, rest, hs, rfl, hinner⟩ := (h j).mp hj
    exact ⟨inner, rest, hs, rfl, hinner⟩
  · rintro ⟨inner, rest, hs, rfl, hinner⟩
    exact ⟨size inner, (h _).mpr ⟨inner, rest, hs, rfl, hinner⟩, rfl⟩

theorem closingAngle_succ (depth i : Nat) :
    closingAngle s (depth + 1) = some i ↔ ClosedAt depth i s := by
  induction s generalizing depth i with
  | nil => simp [closingAngle, ClosedAt]
  | cons c s ih =>
    rw [closingAngle, closedAt_cons]
    by_cases hopening : c = '<'
    · subst hopening
      simp [closesAll_opening, map_eq_some_iff_closedAt (ih (depth + 1))]
    · by_cases hclosing : c = '>'
      · subst hclosing
        cases depth with
        | zero => simp [closesAll_closing, eq_comm]
        | succ depth => simp [closesAll_closing, map_eq_some_iff_closedAt (ih depth)]
      · simp [hopening, hclosing, closesAll_other hopening hclosing,
          map_eq_some_iff_closedAt (ih depth)]

/-! ### Type parameters -/

inductive AfterTypeParams : List Char → List (List Char) → List Char → Prop where
  | none {s : List Char} (h : s.head? ≠ some '<') : AfterTypeParams s [] s
  | list {inner : List Char} (h : ClosesAll 0 inner) (tail : List Char) :
      AfterTypeParams ('<' :: (inner ++ '>' :: tail)) (splitTopLevel inner) (trimStart tail)

theorem closingAngle_opening {i : Nat} :
    closingAngle ('<' :: s) = some i ↔ ∃ j, ClosedAt 0 j s ∧ 1 + j = i := by
  have hsize : ('<' : Char).utf8Size = 1 := rfl
  rw [closingAngle]
  simp [closingAngle_succ, hsize]

theorem AfterTypeParams.takes {parts : List (List Char)} (h : AfterTypeParams s parts rest) :
    takeTypeParams text s = .ok (parts, rest) := by
  cases h with
  | none h =>
    unfold takeTypeParams
    split
    · exact absurd rfl h
    · rfl
  | @list inner hinner tail =>
    have hclosing : closingAngle ('<' :: (inner ++ '>' :: tail)) = some (1 + size inner) :=
      closingAngle_opening.mpr ⟨size inner, ⟨inner, tail, rfl, rfl, hinner⟩, rfl⟩
    have hparams : part ('<' :: (inner ++ '>' :: tail)) 1 (1 + size inner) = .ok inner :=
      part_eq_ok.mpr (slice?_eq_some.mpr ⟨['<'], '>' :: tail, rfl, rfl, rfl⟩)
    have hfront : size ('<' :: (inner ++ ['>'])) = 1 + size inner + 1 := by
      rw [size, size_append, ← Nat.add_assoc]
      rfl
    have htail : part ('<' :: (inner ++ '>' :: tail)) (1 + size inner + 1)
        (size ('<' :: (inner ++ '>' :: tail))) = .ok tail := by
      have hback := part_back ('<' :: (inner ++ ['>'])) tail
      rw [hfront] at hback
      simpa using hback
    simp only [takeTypeParams, hclosing, hparams, htail]
    rfl

theorem takeTypeParams_cases (text : String) (s : List Char) :
    (∃ parts rest, AfterTypeParams s parts rest) ∨
      takeTypeParams text s = .error (.unbalancedAngle text) := by
  by_cases hhead : s.head? = some '<'
  · obtain ⟨t, rfl⟩ := List.head?_eq_some_iff.mp hhead
    cases hclosing : closingAngle ('<' :: t) with
    | none => exact .inr (by simp only [takeTypeParams, hclosing])
    | some i =>
      obtain ⟨_, ⟨inner, tail, rfl, -, hinner⟩, -⟩ := closingAngle_opening.mp hclosing
      exact .inl ⟨_, _, .list hinner tail⟩
  · exact .inl ⟨[], s, .none hhead⟩

theorem takeTypeParams_eq_ok {parts : List (List Char)} :
    takeTypeParams text s = .ok (parts, rest) ↔ AfterTypeParams s parts rest := by
  refine ⟨fun h => ?_, AfterTypeParams.takes⟩
  rcases takeTypeParams_cases text s with ⟨parts, rest, hafter⟩ | hfault
  · rw [hafter.takes] at h
    cases h
    exact hafter
  · rw [hfault] at h
    cases h

theorem takeTypeParams_ne_uncuttable (text : String) (s : List Char) :
    takeTypeParams text s ≠ .error .uncuttable := by
  rcases takeTypeParams_cases text s with ⟨parts, rest, hafter⟩ | hfault
  · simp [hafter.takes]
  · simp [hfault]

theorem trimStart_trim (s : List Char) : trimStart (trim s) = trim s := by
  obtain ⟨after, hfront⟩ : trim s <+: trimStart s := by
    rw [trim, trimEnd, ← List.reverse_suffix, List.reverse_reverse]
    exact List.dropWhile_suffix _
  cases htrim : trim s with
  | nil => rfl
  | cons c t =>
    have hhead : (trimStart s).head? = some c := by rw [← hfront, htrim]; rfl
    have hc := List.head?_dropWhile_not isBlank s
    rw [← trimStart, hhead] at hc
    rw [trimStart, List.dropWhile_cons_of_neg (by simpa using hc)]

theorem typeParamName_prefix (s : List Char) : typeParamName (trim s) <+: trim s := by
  unfold typeParamName firstWord?
  rw [trimStart_trim]
  split
  · exact List.prefix_rfl
  · exact List.takeWhile_prefix _

theorem parseType_ne_uncuttable (scope : List String) (s : List Char) :
    parseType scope s ≠ .error .uncuttable := by
  unfold parseType
  split <;> simp

theorem parseParam_ne_uncuttable (scope : List String) (s : List Char) :
    parseParam scope s ≠ .error .uncuttable := by
  have htype (s : List Char) {e : LibraryFault} (h : parseType scope s = .error e) :
      e ≠ .uncuttable := fun he => parseType_ne_uncuttable scope s (he ▸ h)
  unfold parseParam
  split
  · split
    · next h => simpa using htype _ h
    · simp
  · split
    · next h => simpa using htype _ h
    · simp

theorem parseTypeParam_ne_uncuttable (scope : List String) (s : List Char) :
    parseTypeParam scope s ≠ .error .uncuttable := by
  obtain ⟨rest, hrest⟩ := typeParamName_prefix s
  have hpart := part_back (typeParamName (trim s)) rest
  rw [hrest] at hpart
  intro h
  rcases bind_eq_error_iff.mp h with h | ⟨rest, -, h⟩
  · rw [hpart] at h
    cases h
  · split at h
    · cases h
    · rcases bind_eq_error_iff.mp h with h | ⟨bound, -, h⟩
      · exact parseType_ne_uncuttable _ _ h
      · cases h

/-! ### Heads -/

structure EndsIn (head front name : List Char) : Prop where
  eq : head = front ++ name
  name : ∀ c ∈ name, isNameChar c
  front : ∀ c ∈ front.getLast?, isNameChar c = false

def WideEnd (front : List Char) : Prop := ∃ c ∈ front.getLast?, 1 < c.utf8Size

theorem exists_endsIn (head : List Char) : ∃ front name, EndsIn head front name := by
  cases hlast : findLast? (!isNameChar ·) head with
  | none =>
    have hname := findLast?_eq_none.mp hlast
    exact ⟨[], head, rfl, by simpa using hname, by simp⟩
  | some i =>
    obtain ⟨front, c, name, rfl, hc, hname, -⟩ := findLast?_eq_some.mp hlast
    exact ⟨front ++ [c], name, by simp, by simpa using hname, by simpa using hc⟩

theorem EndsIn.nameStart_of_nil (h : EndsIn head [] name) : nameStart head = 0 := by
  obtain rfl : head = name := h.eq
  have hnone : findLast? (!isNameChar ·) head = none :=
    findLast?_eq_none.mpr (by simpa using h.name)
  rw [nameStart, hnone]

theorem EndsIn.nameStart_of_concat {c : Char} (h : EndsIn head (front ++ [c]) name) :
    nameStart head = size front + 1 := by
  have hsome : findLast? (!isNameChar ·) head = some (size front) :=
    findLast?_eq_some.mpr ⟨front, c, name, by simp [h.eq], by simpa using h.front,
      by simpa using h.name, rfl⟩
  rw [nameStart, hsome]

/-- The name would start inside the character before it. -/
theorem EndsIn.cutHead_of_wideEnd (h : EndsIn head front name) (hwide : WideEnd front) :
    cutHead text head = .error .uncuttable := by
  obtain ⟨c, hc, hsize⟩ := hwide
  obtain ⟨front, rfl⟩ := List.getLast?_eq_some_iff.mp hc
  have hpart : part head (nameStart head) (size head) = .error .uncuttable := by
    rw [part_eq_uncuttable, h.nameStart_of_concat, Option.eq_none_iff_forall_ne_some]
    intro result hresult
    obtain ⟨before, after, hhead, hbefore, -⟩ := slice?_eq_some.mp hresult
    have hcut : before ++ (result ++ after) = front ++ c :: name := by
      rw [← hhead, h.eq, List.append_assoc]
      rfl
    rcases size_le_or_le hcut with hle | hle <;> omega
  rw [cutHead, hpart]
  rfl

theorem EndsIn.cutHead_of_not_wideEnd (h : EndsIn head front name) (hwide : ¬ WideEnd front) :
    cutHead text head =
      if name.isEmpty then .error (.missingName text) else .ok (trim front, name) := by
  have hstart : nameStart head = size front := by
    cases hlast : front.getLast? with
    | none =>
      obtain rfl := List.getLast?_eq_none_iff.mp hlast
      exact h.nameStart_of_nil
    | some c =>
      have hpos := c.utf8Size_pos
      have hsize : ¬ 1 < c.utf8Size := fun hsize => hwide ⟨c, hlast, hsize⟩
      obtain ⟨front, rfl⟩ := List.getLast?_eq_some_iff.mp hlast
      rw [h.nameStart_of_concat, size_append, size, size]
      omega
  rw [cutHead, hstart, h.eq, part_back, part_front]
  cases name with
  | nil => rfl
  | cons c name => rfl

theorem cutHead_eq_ok {ret : List Char} : cutHead text head = .ok (ret, name) ↔
    ∃ front, EndsIn head front name ∧ ¬ WideEnd front ∧ name ≠ [] ∧ ret = trim front := by
  constructor
  · intro h
    obtain ⟨front, last, hend⟩ := exists_endsIn head
    by_cases hwide : WideEnd front
    · rw [hend.cutHead_of_wideEnd hwide] at h
      cases h
    · rw [hend.cutHead_of_not_wideEnd hwide] at h
      split at h
      · cases h
      · next hlast =>
        cases h
        exact ⟨front, hend, hwide, by simpa using hlast, rfl⟩
  · rintro ⟨front, hend, hwide, hname, rfl⟩
    rw [hend.cutHead_of_not_wideEnd hwide, if_neg (by simpa using hname)]

theorem cutHead_eq_uncuttable : cutHead text head = .error .uncuttable ↔
    ∃ front name, EndsIn head front name ∧ WideEnd front := by
  constructor
  · intro h
    obtain ⟨front, name, hend⟩ := exists_endsIn head
    refine ⟨front, name, hend, Classical.byContradiction fun hwide => ?_⟩
    rw [hend.cutHead_of_not_wideEnd hwide] at h
    split at h <;> cases h
  · rintro ⟨front, name, hend, hwide⟩
    exact hend.cutHead_of_wideEnd hwide

/-! ### Methods -/

/-- The text has parentheses and cannot be cut into head, name and parameters: a character of
several bytes stands where the name should start, or there is a name and the last closing
parenthesis comes before the first opening one. -/
def Uncut (s : List Char) : Prop :=
  ∃ before after, s = before ++ '(' :: after ∧ '(' ∉ before ∧ ')' ∈ s ∧
    ∃ front name, EndsIn (trimEnd before) front name ∧
      (WideEnd front ∨ name ≠ [] ∧ ')' ∉ after)

section Parentheses

variable {before after : List Char} {closing : Nat}

theorem cutMethod_eq (hbefore : '(' ∉ before)
    (hclosing : findLast? (· == ')') (before ++ '(' :: after) = some closing) :
    cutMethod text (before ++ '(' :: after) = do
      let cut ← cutHead text (trimEnd before)
      let params ← part (before ++ '(' :: after) (size before + 1) closing
      return (cut.1, cut.2, params) := by
  have hopening : find? (· == '(') (before ++ '(' :: after) = some (size before) := by
    refine find?_eq_some.mpr ⟨before, '(', after, rfl, rfl, fun d hd => ?_, rfl⟩
    exact beq_false_of_ne fun h => hbefore (h ▸ hd)
  rw [cutMethod, hopening, hclosing]
  dsimp only
  rw [part_front]
  rfl

/-- The parameters can be cut out exactly if the last closing parenthesis comes after the first
opening one. -/
theorem part_params_eq_uncuttable
    (hclosing : findLast? (· == ')') (before ++ '(' :: after) = some closing) :
    part (before ++ '(' :: after) (size before + 1) closing = .error .uncuttable ↔
      ')' ∉ after := by
  obtain ⟨left, c, right, hs, hc, hright, rfl⟩ := findLast?_eq_some.mp hclosing
  obtain rfl : c = ')' := by simpa using hc
  rcases List.append_eq_append_iff.mp hs with ⟨middle, rfl, hmiddle⟩ | ⟨middle, rfl, hmiddle⟩
  · cases middle with
    | nil => cases hmiddle
    | cons d params =>
      cases hmiddle
      have hpart : part (before ++ '(' :: (params ++ ')' :: right)) (size before + 1)
          (size (before ++ '(' :: params)) = .ok params := by
        refine part_eq_ok.mpr (slice?_eq_some.mpr ⟨before ++ ['('], ')' :: right, ?_, ?_, ?_⟩)
        · simp
        · rw [size_append]
          rfl
        · rw [size_append, Nat.add_assoc]
          rfl
      simp [hpart]
  · cases middle with
    | nil => cases hmiddle
    | cons d middle =>
      cases hmiddle
      have hpart : slice? (left ++ ')' :: middle ++ '(' :: after)
          (size (left ++ ')' :: middle) + 1) (size left) = none := by
        rw [slice?, if_pos (by rw [size_append]; omega)]
      simp only [part_eq_uncuttable, hpart, true_iff]
      exact fun hafter => absurd (hright ')' (by simp [hafter])) (by decide)

end Parentheses

theorem cutMethod_cases (text : String) (s : List Char) :
    cutMethod text s = .error (.missingOpen text) ∨
      cutMethod text s = .error (.missingClose text) ∨
      ∃ before after closing, s = before ++ '(' :: after ∧ '(' ∉ before ∧
        findLast? (· == ')') s = some closing := by
  cases hopening : find? (· == '(') s with
  | none => exact .inl (by rw [cutMethod, hopening])
  | some opening =>
    cases hclosing : findLast? (· == ')') s with
    | none => exact .inr (.inl (by rw [cutMethod, hopening, hclosing]))
    | some closing =>
      obtain ⟨before, c, after, rfl, hc, hbefore, -⟩ := find?_eq_some.mp hopening
      obtain rfl : c = '(' := by simpa using hc
      refine .inr (.inr ⟨before, after, closing, rfl, fun hmem => ?_, rfl⟩)
      exact absurd (hbefore '(' hmem) (by decide)

theorem exists_cutHead_of_cutMethod {ret params : List Char}
    (h : cutMethod text s = .ok (ret, name, params)) :
    ∃ head, cutHead text head = .ok (ret, name) := by
  rcases cutMethod_cases text s with hfault | hfault | ⟨before, after, closing, rfl, hbefore, hlast⟩
  · rw [hfault] at h
    cases h
  · rw [hfault] at h
    cases h
  · rw [cutMethod_eq hbefore hlast] at h
    obtain ⟨cut, hcut, h⟩ := bind_eq_ok_iff.mp h
    obtain ⟨params, -, h⟩ := bind_eq_ok_iff.mp h
    cases h
    exact ⟨_, hcut⟩

theorem cutMethod_eq_uncuttable : cutMethod text s = .error .uncuttable ↔ Uncut s := by
  constructor
  · intro h
    rcases cutMethod_cases text s with hfault | hfault |
      ⟨before, after, closing, rfl, hbefore, hlast⟩
    · rw [hfault] at h
      cases h
    · rw [hfault] at h
      cases h
    · have hclosing : ')' ∈ before ++ '(' :: after := by
        obtain ⟨left, c, right, hs, hc, -, -⟩ := findLast?_eq_some.mp hlast
        rw [hs]
        simp_all
      refine ⟨before, after, rfl, hbefore, hclosing, ?_⟩
      rw [cutMethod_eq hbefore hlast] at h
      rcases bind_eq_error_iff.mp h with h | ⟨⟨ret, name⟩, hhead, h⟩
      · obtain ⟨front, name, hend, hwide⟩ := cutHead_eq_uncuttable.mp h
        exact ⟨front, name, hend, .inl hwide⟩
      · obtain ⟨front, hend, -, hname, -⟩ := cutHead_eq_ok.mp hhead
        rcases bind_eq_error_iff.mp h with h | ⟨params, -, h⟩
        · exact ⟨front, name, hend, .inr ⟨hname, (part_params_eq_uncuttable hlast).mp h⟩⟩
        · cases h
  · rintro ⟨before, after, rfl, hbefore, hclosing, front, name, hend, hcase⟩
    obtain ⟨closing, hlast⟩ :
        ∃ closing, findLast? (· == ')') (before ++ '(' :: after) = some closing := by
      rw [← Option.ne_none_iff_exists']
      intro hnone
      exact absurd (findLast?_eq_none.mp hnone ')' hclosing) (by decide)
    rw [cutMethod_eq hbefore hlast]
    by_cases hwide : WideEnd front
    · rw [hend.cutHead_of_wideEnd hwide]
      rfl
    · obtain ⟨hname, hafter⟩ := hcase.resolve_left hwide
      rw [hend.cutHead_of_not_wideEnd hwide, if_neg (by simpa using hname),
        (part_params_eq_uncuttable hlast).mpr hafter]
      rfl

/-! ### Modifiers -/

def modifierWords : List (List Char) := ["static ".toList, "default ".toList, "abstract ".toList]

inductive AfterModifiers : List Char → List Char → Prop where
  | none {s : List Char} (h : ∀ word ∈ modifierWords, ¬ word <+: s) : AfterModifiers s s
  | more {word s rest : List Char} (hword : word ∈ modifierWords)
      (h : AfterModifiers (trimStart s) rest) : AfterModifiers (word ++ s) rest

theorem dropStart?_eq_some {start : List Char} :
    dropStart? start s = some rest ↔ s = start ++ rest := by
  unfold dropStart?
  constructor
  · intro h
    split at h
    · next hstart =>
      obtain ⟨tail, rfl⟩ := List.isPrefixOf_iff_prefix.mp hstart
      cases h
      simp
    · cases h
  · rintro rfl
    simp

theorem not_prefix_of_dropStart?_eq_none (hstatic : dropStart? "static ".toList s = none)
    (hdefault : dropStart? "default ".toList s = none)
    (habstract : dropStart? "abstract ".toList s = none) :
    ∀ word ∈ modifierWords, ¬ word <+: s := by
  rintro word hword ⟨tail, htail⟩
  have hsome := dropStart?_eq_some.mpr htail.symm
  simp only [modifierWords, List.mem_cons, List.not_mem_nil, or_false] at hword
  rcases hword with rfl | rfl | rfl
  · cases hstatic.symm.trans hsome
  · cases hdefault.symm.trans hsome
  · cases habstract.symm.trans hsome

theorem afterModifiers_takeModifiers (m : Modifiers) (s : List Char) :
    AfterModifiers s (takeModifiers m s).2 := by
  fun_induction takeModifiers m s with
  | case1 m s rest h ih =>
    obtain rfl := dropStart?_eq_some.mp h
    exact .more (by simp [modifierWords]) ih
  | case2 m s _ rest h ih =>
    obtain rfl := dropStart?_eq_some.mp h
    exact .more (by simp [modifierWords]) ih
  | case3 m s _ _ rest h ih =>
    obtain rfl := dropStart?_eq_some.mp h
    exact .more (by simp [modifierWords]) ih
  | case4 m s hstatic hdefault habstract =>
    exact .none (not_prefix_of_dropStart?_eq_none hstatic hdefault habstract)

/-- A modifier is known by its first letter. -/
theorem modifierWords_apart {word other : List Char} (hword : word ∈ modifierWords)
    (hother : other ∈ modifierWords) (h : word ++ s = other ++ rest) : word = other := by
  have hne : ∀ word ∈ modifierWords, word ≠ [] := by decide
  have hapart : ∀ word ∈ modifierWords, ∀ other ∈ modifierWords,
      word.head? = other.head? → word = other := by decide
  cases word with
  | nil => exact absurd rfl (hne _ hword)
  | cons c word =>
    cases other with
    | nil => exact absurd rfl (hne _ hother)
    | cons d other => exact hapart _ hword _ hother (congrArg some (List.cons.inj h).1)

theorem AfterModifiers.of_append {word : List Char} (hword : word ∈ modifierWords)
    (h : AfterModifiers (word ++ s) rest) : AfterModifiers (trimStart s) rest := by
  generalize ht : word ++ s = t at h
  cases h with
  | none hnone =>
    subst ht
    exact absurd (List.prefix_append word s) (hnone word hword)
  | more hother h =>
    obtain rfl := modifierWords_apart hword hother ht
    rwa [List.append_cancel_left ht]

theorem AfterModifiers.eq_takeModifiers (h : AfterModifiers s rest) (m : Modifiers) :
    rest = (takeModifiers m s).2 := by
  fun_induction takeModifiers m s with
  | case1 m s rest hstart ih =>
    obtain rfl := dropStart?_eq_some.mp hstart
    exact ih (h.of_append (by simp [modifierWords]))
  | case2 m s _ rest hstart ih =>
    obtain rfl := dropStart?_eq_some.mp hstart
    exact ih (h.of_append (by simp [modifierWords]))
  | case3 m s _ _ rest hstart ih =>
    obtain rfl := dropStart?_eq_some.mp hstart
    exact ih (h.of_append (by simp [modifierWords]))
  | case4 m s hstatic hdefault habstract =>
    have hnone := not_prefix_of_dropStart?_eq_none hstatic hdefault habstract
    cases h with
    | none _ => rfl
    | @more word s _ hword _ => exact absurd (List.prefix_append word s) (hnone word hword)

/-! ### Methods that break off -/

/-- Reading the text of a method breaks off: after the modifiers, and type parameters that can be
read, it cannot be cut. -/
def BreaksOff (scope : List String) (text : String) : Prop :=
  ∃ unmodified typeParamTexts rest, AfterModifiers (trim text.toList) unmodified ∧
    AfterTypeParams unmodified typeParamTexts rest ∧
    (∃ typeParams, typeParamTexts.mapM (parseTypeParam (scope ++
      typeParamTexts.map (String.ofList <| typeParamName ·))) = .ok typeParams) ∧
    Uncut rest

variable {owner : String} {kind : TypeKind} {scope : List String}

theorem BreaksOff.parseMethod_eq (h : BreaksOff scope text) :
    parseMethod owner kind scope text = .error .uncuttable := by
  obtain ⟨_, typeParamTexts, rest, hmodifiers, htake, ⟨typeParams, htypeParams⟩, huncut⟩ := h
  obtain rfl := hmodifiers.eq_takeModifiers {}
  refine bind_eq_error_iff.mpr (.inr ⟨_, htake.takes, ?_⟩)
  refine bind_eq_error_iff.mpr (.inr ⟨_, htypeParams, ?_⟩)
  exact bind_eq_error_iff.mpr (.inl (cutMethod_eq_uncuttable.mpr huncut))

theorem breaksOff_of_parseMethod (h : parseMethod owner kind scope text = .error .uncuttable) :
    BreaksOff scope text := by
  unfold parseMethod at h
  rcases bind_eq_error_iff.mp h with h | ⟨⟨typeParamTexts, rest⟩, htake, h⟩
  · exact absurd h (takeTypeParams_ne_uncuttable _ _)
  rcases bind_eq_error_iff.mp h with h | ⟨typeParams, htypeParams, h⟩
  · obtain ⟨s, -, hs⟩ := exists_of_mapM_eq_error h
    exact absurd hs (parseTypeParam_ne_uncuttable _ _)
  refine ⟨_, typeParamTexts, rest, afterModifiers_takeModifiers {} _,
    takeTypeParams_eq_ok.mp htake, ⟨typeParams, htypeParams⟩, ?_⟩
  rcases bind_eq_error_iff.mp h with h | ⟨⟨ret, name, params⟩, -, h⟩
  · exact cutMethod_eq_uncuttable.mp h
  -- After the cuts every fault is one of a type or of a constructor's name.
  rcases bind_eq_error_iff.mp h with h | ⟨parsed, -, h⟩
  · obtain ⟨s, -, hs⟩ := exists_of_mapM_eq_error h
    exact absurd hs (parseParam_ne_uncuttable _ _)
  dsimp only at h
  split at h
  · split at h
    · cases h
    · cases h
  · rcases bind_eq_error_iff.mp h with h | ⟨ret, -, h⟩
    · exact absurd h (parseType_ne_uncuttable _ _)
    · cases h

/-- A method's text is read to a method or to a fault with a reason, unless it breaks off. -/
theorem parseMethod_answers_iff (owner : String) (kind : TypeKind) (scope : List String)
    (text : String) :
    (BreaksOff scope text ↔ parseMethod owner kind scope text = .error .uncuttable) ∧
      (¬ BreaksOff scope text ↔ (∃ m, parseMethod owner kind scope text = .ok m) ∨
        ∃ fault, fault ≠ .uncuttable ∧ parseMethod owner kind scope text = .error fault) := by
  refine ⟨⟨BreaksOff.parseMethod_eq, breaksOff_of_parseMethod⟩, fun h => ?_, ?_⟩
  · cases hread : parseMethod owner kind scope text with
    | ok m => exact .inl ⟨m, rfl⟩
    | error fault =>
      refine .inr ⟨fault, ?_, rfl⟩
      rintro rfl
      exact h (breaksOff_of_parseMethod hread)
  · rintro (⟨m, hread⟩ | ⟨fault, hfault, hread⟩) h
    · rw [h.parseMethod_eq] at hread
      cases hread
    · rw [h.parseMethod_eq] at hread
      cases hread
      exact hfault rfl

end JavaCallGraph.MemberText
