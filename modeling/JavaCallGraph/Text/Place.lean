/-!
# Places in a text

A place in a text is counted in bytes of its UTF-8 form. A text can be cut where a character starts
and at its end, and nowhere else.
-/

namespace JavaCallGraph.Text

/-- The number of bytes of a text. -/
def size : List Char → Nat
  | [] => 0
  | c :: s => c.utf8Size + size s

/-- The place of the first character of which `p` holds. -/
def find? (p : Char → Bool) : List Char → Option Nat
  | [] => none
  | c :: s => if p c then some 0 else (find? p s).map (c.utf8Size + ·)

/-- The place of the last character of which `p` holds. -/
def findLast? (p : Char → Bool) : List Char → Option Nat
  | [] => none
  | c :: s =>
    match findLast? p s with
    | some i => some (c.utf8Size + i)
    | none => if p c then some 0 else none

/-- What stands before a place and what stands after it. -/
def cutAt? (i : Nat) : List Char → Option (List Char × List Char)
  | [] => if i = 0 then some ([], []) else none
  | c :: s =>
    if i = 0 then some ([], c :: s)
    else if i < c.utf8Size then none
    else (cutAt? (i - c.utf8Size) s).map fun cut => (c :: cut.1, cut.2)

/-- The text from one place to another, which may not come before it. -/
def slice? (s : List Char) (start stop : Nat) : Option (List Char) :=
  if stop < start then none
  else (cutAt? stop s).bind fun cut => (cutAt? start cut.1).map (·.2)

variable {p : Char → Bool} {s front rest part : List Char} {i start stop : Nat}

theorem size_append (s t : List Char) : size (s ++ t) = size s + size t := by
  induction s with
  | nil => simp [size]
  | cons c s ih => simp [size, ih, Nat.add_assoc]

/-- Where a text is cut is not inside a character. -/
theorem size_le_or_le {before after : List Char} {c : Char}
    (h : before ++ after = front ++ c :: rest) :
    size before ≤ size front ∨ size front + c.utf8Size ≤ size before := by
  rcases List.append_eq_append_iff.mp h with ⟨middle, rfl, -⟩ | ⟨middle, rfl, hmiddle⟩
  · exact .inl (by rw [size_append]; omega)
  · cases middle with
    | nil => exact .inl (by simp)
    | cons d middle =>
      cases hmiddle
      exact .inr (by rw [size_append, size]; omega)

theorem find?_eq_none : find? p s = none ↔ ∀ c ∈ s, p c = false := by
  induction s with
  | nil => simp [find?]
  | cons c s ih =>
    rw [find?, List.forall_mem_cons, ← ih]
    by_cases hc : p c <;> simp [hc]

theorem find?_eq_some : find? p s = some i ↔
    ∃ front c rest, s = front ++ c :: rest ∧ p c ∧ (∀ d ∈ front, p d = false) ∧ size front = i := by
  induction s generalizing i with
  | nil => simp [find?]
  | cons c s ih =>
    rw [find?]
    constructor
    · intro h
      split at h
      · next hc =>
        cases h
        exact ⟨[], c, s, rfl, hc, by simp, rfl⟩
      · next hc =>
        obtain ⟨j, hj, rfl⟩ := Option.map_eq_some_iff.mp h
        obtain ⟨front, d, rest, rfl, hd, hfront, rfl⟩ := ih.mp hj
        refine ⟨c :: front, d, rest, rfl, hd, ?_, rfl⟩
        exact List.forall_mem_cons.mpr ⟨by simpa using hc, hfront⟩
    · rintro ⟨front, d, rest, hs, hd, hfront, rfl⟩
      cases front with
      | nil =>
        cases hs
        rw [if_pos hd]
        rfl
      | cons e front =>
        cases hs
        obtain ⟨hc, hfront⟩ := List.forall_mem_cons.mp hfront
        rw [hc, ih.mpr ⟨front, d, rest, rfl, hd, hfront, rfl⟩]
        rfl

theorem findLast?_eq_none : findLast? p s = none ↔ ∀ c ∈ s, p c = false := by
  induction s with
  | nil => simp [findLast?]
  | cons c s ih =>
    rw [findLast?, List.forall_mem_cons, ← ih]
    cases findLast? p s with
    | none => by_cases hc : p c <;> simp [hc]
    | some i => simp

theorem findLast?_eq_some : findLast? p s = some i ↔
    ∃ front c rest, s = front ++ c :: rest ∧ p c ∧ (∀ d ∈ rest, p d = false) ∧ size front = i := by
  induction s generalizing i with
  | nil => simp [findLast?]
  | cons c s ih =>
    rw [findLast?]
    constructor
    · intro h
      split at h
      · next j hj =>
        cases h
        obtain ⟨front, d, rest, rfl, hd, hrest, rfl⟩ := ih.mp hj
        exact ⟨c :: front, d, rest, rfl, hd, hrest, rfl⟩
      · next hnone =>
        split at h
        · next hc =>
          cases h
          exact ⟨[], c, s, rfl, hc, findLast?_eq_none.mp hnone, rfl⟩
        · cases h
    · rintro ⟨front, d, rest, hs, hd, hrest, rfl⟩
      cases front with
      | nil =>
        cases hs
        rw [findLast?_eq_none.mpr hrest]
        dsimp only
        rw [if_pos hd]
        rfl
      | cons e front =>
        cases hs
        rw [ih.mpr ⟨front, d, rest, rfl, hd, hrest, rfl⟩]
        rfl

theorem cutAt?_eq_some : cutAt? i s = some (front, rest) ↔ s = front ++ rest ∧ size front = i := by
  induction s generalizing i front with
  | nil =>
    rw [cutAt?]
    constructor
    · intro h
      split at h
      · next hi =>
        cases h
        exact ⟨rfl, hi.symm⟩
      · cases h
    · rintro ⟨hs, rfl⟩
      obtain ⟨rfl, rfl⟩ := List.append_eq_nil_iff.mp hs.symm
      rfl
  | cons c s ih =>
    rw [cutAt?]
    constructor
    · intro h
      split at h
      · next hi =>
        cases h
        exact ⟨rfl, hi.symm⟩
      · split at h
        · cases h
        · next hi =>
          obtain ⟨⟨front, rest⟩, hcut, h⟩ := Option.map_eq_some_iff.mp h
          cases h
          obtain ⟨rfl, hsize⟩ := ih.mp hcut
          refine ⟨rfl, ?_⟩
          rw [size]
          dsimp only at hsize ⊢
          omega
    · rintro ⟨hs, rfl⟩
      cases front with
      | nil =>
        rw [List.nil_append] at hs
        rw [← hs]
        rfl
      | cons d front =>
        cases hs
        have hpos := c.utf8Size_pos
        rw [size, if_neg (by omega), if_neg (by omega), Nat.add_sub_cancel_left,
          ih.mpr ⟨rfl, rfl⟩]
        rfl

theorem slice?_eq_some : slice? s start stop = some part ↔
    ∃ front rest, s = front ++ (part ++ rest) ∧ size front = start ∧ start + size part = stop := by
  unfold slice?
  constructor
  · intro h
    split at h
    · cases h
    · obtain ⟨⟨before, rest⟩, hstop, h⟩ := Option.bind_eq_some_iff.mp h
      obtain ⟨⟨front, part⟩, hstart, h⟩ := Option.map_eq_some_iff.mp h
      cases h
      obtain ⟨rfl, rfl⟩ := cutAt?_eq_some.mp hstop
      obtain ⟨hbefore, rfl⟩ := cutAt?_eq_some.mp hstart
      dsimp only at hbefore
      subst hbefore
      exact ⟨front, rest, by simp, rfl, (size_append front part).symm⟩
  · rintro ⟨front, rest, rfl, rfl, rfl⟩
    have hstop : cutAt? (size front + size part) (front ++ (part ++ rest)) =
        some (front ++ part, rest) :=
      cutAt?_eq_some.mpr ⟨by simp, size_append front part⟩
    have hstart : cutAt? (size front) (front ++ part) = some (front, part) :=
      cutAt?_eq_some.mpr ⟨rfl, rfl⟩
    rw [if_neg (by omega), hstop, Option.bind_some, hstart]
    rfl

end JavaCallGraph.Text
