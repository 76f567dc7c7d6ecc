import JavaCallGraph.Signature
import Mathlib.Data.List.TakeWhile
import Mathlib.Data.Set.Function

/-!
# The written form of signatures

Reading a signature undoes writing it. A signature can be written so that it is read back when its
declaring type is not empty and has no colon, its name is not empty and has no parenthesis that
opens, and the names in its descriptors are not empty and have no semicolon. `WellFormed` says so.
For each reader there are two lemmas: it takes the written form of a well-formed value off the
front of any text, and whatever it takes is well formed and was written there.
-/

namespace JavaCallGraph

def EndsBefore (stop : Char) (name : String) : Prop := name ≠ "" ∧ stop ∉ name.toList

instance (stop : Char) (name : String) : Decidable (EndsBefore stop name) :=
  inferInstanceAs (Decidable (_ ∧ _))

theorem EndsBefore.exists_cons {stop : Char} {name : String} (h : EndsBefore stop name) :
    ∃ c cs, name.toList = c :: cs :=
  List.exists_cons_of_ne_nil (by simpa using h.1)

theorem endsBefore_ofList {stop : Char} {cs : List Char} :
    EndsBefore stop (String.ofList cs) ↔ cs ≠ [] ∧ stop ∉ cs := by
  simp [EndsBefore]

namespace Descriptor

def WellFormed : Descriptor → Prop
  | .primitive _ => True
  | .reference name => EndsBefore ';' name
  | .array e => e.WellFormed
  | .typeVar name => EndsBefore ';' name

instance decidableWellFormed : (d : Descriptor) → Decidable d.WellFormed
  | .primitive _ => inferInstanceAs (Decidable True)
  | .reference name => inferInstanceAs (Decidable (EndsBefore ';' name))
  | .array e => decidableWellFormed e
  | .typeVar name => inferInstanceAs (Decidable (EndsBefore ';' name))

end Descriptor

namespace Signature

structure WellFormed (s : Signature) : Prop where
  declaring : EndsBefore ':' s.declaring
  name : EndsBefore '(' s.name
  params : ∀ d ∈ s.params, d.WellFormed
  ret : s.ret.WellFormed

theorem wellFormed_iff {s : Signature} : s.WellFormed ↔
    EndsBefore ':' s.declaring ∧ EndsBefore '(' s.name ∧ (∀ d ∈ s.params, d.WellFormed) ∧
      s.ret.WellFormed :=
  ⟨fun h => ⟨h.1, h.2, h.3, h.4⟩, fun ⟨hd, hn, hp, hr⟩ => ⟨hd, hn, hp, hr⟩⟩

instance (s : Signature) : Decidable s.WellFormed := decidable_of_iff' _ wellFormed_iff

/-! ### Cutting at a character -/

theorem splitAtFirst_eq_some_iff {c : Char} {s front rest : List Char} :
    splitAtFirst c s = some (front, rest) ↔ c ∉ front ∧ s = front ++ c :: rest := by
  constructor
  · intro h
    have hs : s.takeWhile (· != c) ++ s.dropWhile (· != c) = s := List.takeWhile_append_dropWhile
    unfold splitAtFirst at h
    split at h
    · simp at h
    · next d tail hd =>
      obtain ⟨rfl, rfl⟩ := Prod.mk.inj (Option.some.inj h)
      have hdc : d = c := by
        have := List.head_dropWhile_not (· != c) (by rw [hd]; simp : s.dropWhile (· != c) ≠ [])
        simpa [hd] using this
      subst hdc
      refine ⟨fun hmem => ?_, by rw [← hd, hs]⟩
      have := List.mem_takeWhile_imp hmem
      simp at this
  · rintro ⟨hc, rfl⟩
    have hall : ∀ a ∈ front, (a != c) = true := by
      intro a ha
      simp only [bne_iff_ne, ne_eq]
      rintro rfl
      exact hc ha
    unfold splitAtFirst
    rw [List.dropWhile_append_of_pos hall, List.takeWhile_append_of_pos hall]
    simp

end Signature

namespace Descriptor

/-! ### Reading one descriptor -/

theorem takeName_eq_splitAtFirst (s : List Char) :
    takeName s = match Signature.splitAtFirst ';' s with
      | none => .error .unterminatedName
      | some ([], _) => .error .emptyTypeName
      | some (name, rest) => .ok (String.ofList name, rest) := by
  unfold takeName Signature.splitAtFirst
  cases s.dropWhile (· != ';') with
  | nil => rfl
  | cons c rest => cases s.takeWhile (· != ';') <;> rfl

theorem takeName_eq_ok_iff {s rest : List Char} {name : String} :
    takeName s = .ok (name, rest) ↔ EndsBefore ';' name ∧ s = name.toList ++ ';' :: rest := by
  rw [takeName_eq_splitAtFirst]
  constructor
  · intro h
    split at h
    · simp at h
    · simp at h
    · next front tail hne hs =>
      obtain ⟨rfl, rfl⟩ := Prod.mk.inj (Except.ok.inj h)
      obtain ⟨hc, rfl⟩ := Signature.splitAtFirst_eq_some_iff.mp hs
      exact ⟨endsBefore_ofList.mpr ⟨fun h => hne h, hc⟩, by simp⟩
  · rintro ⟨hname, rfl⟩
    obtain ⟨c, cs, hl⟩ := hname.exists_cons
    rw [Signature.splitAtFirst_eq_some_iff.mpr ⟨hname.2, rfl⟩, hl]
    simp only [← hl, String.ofList_toList]

theorem take_toChars_append {d : Descriptor} (h : d.WellFormed) (rest : List Char) :
    take (d.toChars ++ rest) = .ok (d, rest) := by
  induction d with
  | primitive p => cases p <;> rfl
  | reference name =>
    have hname : takeName (name.toList ++ ';' :: rest) = .ok (name, rest) :=
      takeName_eq_ok_iff.mpr ⟨h, rfl⟩
    simp [toChars, take, hname]
  | array e ih => simp [toChars, take, ih h]
  | typeVar name =>
    have hname : takeName (name.toList ++ ';' :: rest) = .ok (name, rest) :=
      takeName_eq_ok_iff.mpr ⟨h, rfl⟩
    simp [toChars, take, hname]

theorem of_take {s rest : List Char} {d : Descriptor} (h : take s = .ok (d, rest)) :
    d.WellFormed ∧ s = d.toChars ++ rest := by
  induction s generalizing d rest with
  | nil => simp [take] at h
  | cons c cs ih =>
    rw [take] at h
    split at h
    · next hc =>
      split at h
      · simp at h
      · next hn =>
        obtain ⟨rfl, rfl⟩ := Prod.mk.inj (Except.ok.inj h)
        obtain ⟨hw, rfl⟩ := takeName_eq_ok_iff.mp hn
        exact ⟨hw, by simp_all [toChars]⟩
    · split at h
      · next hc =>
        split at h
        · simp at h
        · next hn =>
          obtain ⟨rfl, rfl⟩ := Prod.mk.inj (Except.ok.inj h)
          obtain ⟨hw, rfl⟩ := takeName_eq_ok_iff.mp hn
          exact ⟨hw, by simp_all [toChars]⟩
      · split at h
        · next hc =>
          split at h
          · simp at h
          · next he =>
            obtain ⟨rfl, rfl⟩ := Prod.mk.inj (Except.ok.inj h)
            obtain ⟨hw, rfl⟩ := ih he
            exact ⟨hw, by simp_all [toChars]⟩
        · split at h
          · next p hp =>
            obtain ⟨rfl, rfl⟩ := Prod.mk.inj (Except.ok.inj h)
            exact ⟨trivial, by simp [toChars, Primitive.code_of_ofCode? hp]⟩
          · simp at h

theorem toChars_head (d : Descriptor) : ∃ c cs, d.toChars = c :: cs ∧ c ≠ ')' := by
  cases d with
  | primitive p => exact ⟨p.code, [], rfl, by cases p <;> decide⟩
  | reference name => exact ⟨'Q', _, rfl, by decide⟩
  | array e => exact ⟨'[', _, rfl, by decide⟩
  | typeVar name => exact ⟨'T', _, rfl, by decide⟩

end Descriptor

namespace Signature

/-! ### Reading a signature -/

theorem takeParams_append {ds : List Descriptor} (h : ∀ d ∈ ds, d.WellFormed) (rest : List Char) :
    takeParams (ds.flatMap Descriptor.toChars ++ ')' :: rest) = .ok (ds, rest) := by
  induction ds with
  | nil => simp [takeParams]
  | cons d ds ih =>
    obtain ⟨c, cs, hcs, hc⟩ := d.toChars_head
    have hd := Descriptor.take_toChars_append (h d (by simp))
      (ds.flatMap Descriptor.toChars ++ ')' :: rest)
    have hds := ih (fun e he => h e (by simp [he]))
    rw [hcs, List.cons_append] at hd
    rw [List.flatMap_cons, List.append_assoc, hcs, List.cons_append, takeParams]
    simp only [beq_iff_eq, hc, if_false]
    split
    · simp_all
    · next he =>
      rw [hd] at he
      obtain ⟨rfl, rfl⟩ := Prod.mk.inj (Except.ok.inj he)
      rw [hds]

theorem of_takeParams {s rest : List Char} {ds : List Descriptor}
    (h : takeParams s = .ok (ds, rest)) :
    (∀ d ∈ ds, d.WellFormed) ∧ s = ds.flatMap Descriptor.toChars ++ ')' :: rest := by
  fun_induction takeParams s generalizing ds rest with
  | case1 => simp at h
  | case2 c cs hc =>
    obtain ⟨rfl, rfl⟩ := Prod.mk.inj (Except.ok.inj h)
    simp_all
  | case3 => simp at h
  | case4 => simp at h
  | case5 c cs hc d rest' hd ds' rest'' hds ih =>
    obtain ⟨rfl, rfl⟩ := Prod.mk.inj (Except.ok.inj h)
    obtain ⟨hw, hs⟩ := Descriptor.of_take hd
    obtain ⟨hws, rfl⟩ := ih hds
    exact ⟨by simpa using ⟨hw, hws⟩, by simp [hs]⟩

theorem decodeChars_toChars {s : Signature} (h : s.WellFormed) :
    decodeChars s.toChars = .ok s := by
  obtain ⟨c, cs, hdeclaring⟩ := h.declaring.exists_cons
  obtain ⟨d, ds, hname⟩ := h.name.exists_cons
  have hcolon : splitAtFirst ':' s.toChars = some (s.declaring.toList, s.name.toList ++ '(' ::
      (s.params.flatMap Descriptor.toChars ++ ')' :: s.ret.toChars)) :=
    splitAtFirst_eq_some_iff.mpr ⟨h.declaring.2, rfl⟩
  have hopen : splitAtFirst '(' (s.name.toList ++ '(' ::
      (s.params.flatMap Descriptor.toChars ++ ')' :: s.ret.toChars)) =
      some (s.name.toList, s.params.flatMap Descriptor.toChars ++ ')' :: s.ret.toChars) :=
    splitAtFirst_eq_some_iff.mpr ⟨h.name.2, rfl⟩
  have hret : Descriptor.take s.ret.toChars = .ok (s.ret, []) := by
    simpa using Descriptor.take_toChars_append h.ret []
  rw [hdeclaring] at hcolon
  rw [hname] at hopen hcolon
  simp only [decodeChars, hcolon, hopen, takeParams_append h.params, hret]
  rw [← hdeclaring, ← hname, String.ofList_toList, String.ofList_toList]

theorem of_decodeChars {cs : List Char} {s : Signature} (h : decodeChars cs = .ok s) :
    s.WellFormed ∧ s.toChars = cs := by
  unfold decodeChars at h
  split at h
  · simp at h
  · simp at h
  next declaring afterColon hdeclaring hsplit =>
  obtain ⟨hcolon, rfl⟩ := splitAtFirst_eq_some_iff.mp hsplit
  split at h
  · simp at h
  · simp at h
  next name afterOpen hname hsplit =>
  obtain ⟨hopen, rfl⟩ := splitAtFirst_eq_some_iff.mp hsplit
  split at h
  · simp at h
  next params afterClose htake =>
  obtain ⟨hparams, rfl⟩ := of_takeParams htake
  split at h
  · simp at h
  · next ret htake =>
    obtain ⟨hret, rfl⟩ := Descriptor.of_take htake
    obtain rfl := Except.ok.inj h
    refine ⟨⟨endsBefore_ofList.mpr ⟨hdeclaring, hcolon⟩, endsBefore_ofList.mpr ⟨hname, hopen⟩,
      hparams, hret⟩, ?_⟩
    simp [toChars]
  · simp at h

theorem decode_encode {s : Signature} (h : s.WellFormed) : decode s.encode = .ok s := by
  rw [decode, encode, String.toList_ofList]
  exact decodeChars_toChars h

theorem of_decode {text : String} {s : Signature} (h : decode text = .ok s) :
    s.WellFormed ∧ s.encode = text := by
  obtain ⟨hs, htext⟩ := of_decodeChars h
  exact ⟨hs, by rw [encode, htext, String.ofList_toList]⟩

theorem encode_injOn : Set.InjOn encode {s | s.WellFormed} := by
  intro s hs t ht h
  have hdecode := decode_encode hs
  rw [h, decode_encode ht] at hdecode
  exact (Except.ok.inj hdecode).symm

/-- Writing maps the well-formed signatures one to one onto the texts that can be read, and
reading is its inverse. -/
theorem codec_bijective :
    (∀ s : Signature, s.WellFormed → decode s.encode = .ok s) ∧
      (∀ (text : String) (s : Signature), decode text = .ok s → s.WellFormed ∧ s.encode = text) ∧
      Set.BijOn encode {s | s.WellFormed} {text | ∃ s, decode text = .ok s} := by
  refine ⟨fun s => decode_encode, fun text s => of_decode, ?_, encode_injOn, ?_⟩
  · intro s hs
    exact ⟨s, decode_encode hs⟩
  · rintro text ⟨s, h⟩
    exact ⟨s, of_decode h⟩

def crowded : Signature :=
  ⟨"p.A$1();", "m:)x;", [.array (.array (.reference "q:(B)")), .typeVar "[T)", .void],
    .array (.typeVar "Q")⟩

theorem codec_bijective_crowded :
    crowded.WellFormed ∧ crowded.encode = "p.A$1();:m:)x;([[Qq:(B);T[T);V)[TQ;" ∧
      decode crowded.encode = .ok crowded :=
  have h : crowded.WellFormed := by decide +kernel
  ⟨h, by decide +kernel, codec_bijective.1 crowded h⟩

end Signature

end JavaCallGraph
