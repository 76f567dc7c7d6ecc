import JavaCallGraph.Proofs.KeptFacts
import Mathlib.Tactic.Push

/-!
# The engine agrees with the unrolled walk

A question that the unrolled walk answers is answered alike by a coherent engine, as long as the
walk comes upon no body and no field that is in progress. The proof goes up level by level. A
summary at one level needs only answers one level below, and a body that is being walked has no
value there yet.
-/

namespace JavaCallGraph

namespace Engine

variable {p : Program} {room : Nat} {s : Signature} {e : Engine} {bodies : SignatureSet}
  {fields : FieldSet}

/-! ### Agreement of computations -/

/-- Where the second computation has a value, the first one has it too and leaves the engine as
busy as it was. -/
def Agrees (p : Program) (bodies : SignatureSet) (fields : FieldSet) {α : Type}
    (x : StateM Engine α) (y : Option α) : Prop :=
  ∀ a, y = some a → ∀ e, Busy p bodies fields e →
    (x.run e).1 = a ∧ Busy p bodies fields (x.run e).2

theorem Agrees.bind {α β : Type} {x : StateM Engine α} {y : Option α} {f : α → StateM Engine β}
    {g : α → Option β} (hx : Agrees p bodies fields x y)
    (hf : ∀ a, Agrees p bodies fields (f a) (g a)) :
    Agrees p bodies fields (x >>= f) (y >>= g) := by
  intro b hb e he
  rw [Option.bind_eq_bind, Option.bind_eq_some_iff] at hb
  obtain ⟨a, ha, hb⟩ := hb
  obtain ⟨hvalue, hbusy⟩ := hx a ha e he
  rw [run_bind, hvalue]
  exact hf a b hb _ hbusy

theorem Agrees.pure {α : Type} (a : α) :
    Agrees p bodies fields (Pure.pure a : StateM Engine α) (some a) := by
  intro b hb e he
  cases hb
  exact ⟨rfl, he⟩

theorem Agrees.script_run {α : Type} {f : Question → StateM Engine (Option ConstraintSet)}
    {g : Question → Option (Option ConstraintSet)}
    (h : ∀ q, Agrees p bodies fields (f q) (g q)) (script : Script α) :
    Agrees p bodies fields (script.run f) (script.run g) := by
  induction script with
  | done a => exact .pure a
  | ask q next ih => exact (h q).bind ih

theorem Agrees.returnSetBy {f : Signature → StateM Engine (Option BodySummary)}
    {g : Signature → Option (Option BodySummary)}
    (h : ∀ s, Agrees p bodies fields (f s) (g s)) (m : Method) :
    Agrees p bodies fields (returnSetBy f m) (returnSetBy g m) := by
  refine (h m.signature).bind fun summary => ?_
  cases summary <;> exact .pure _

theorem Agrees.writesBy {f : Signature → StateM Engine (Option BodySummary)}
    {g : Signature → Option (Option BodySummary)}
    (h : ∀ s, Agrees p bodies fields (f s) (g s)) (key : FieldKey) :
    Agrees p bodies fields (writesBy p f key) (writesBy p g key) := by
  unfold Engine.writesBy
  generalize writers p key.declaring = sigs, (({} : Writes)) = start
  induction sigs generalizing start with
  | nil => exact .pure start
  | cons s sigs ih =>
    rw [List.foldlM_cons, List.foldlM_cons]
    exact ((h s).bind fun summary => .pure _).bind ih

/-! ### Agreement at every level -/

/-- The unrolled walk with that room gives none of the bodies a summary. -/
def OutOfReach (p : Program) (room : Nat) (bodies : SignatureSet) : Prop :=
  ∀ s ∈ bodies, p.unrolled room s = none

def FieldsOutOfReach (p : Program) (room : Nat) (fields : FieldSet) : Prop :=
  ∀ key ∈ fields, p.unrolledAnswer room (.fieldSet key) = none

theorem OutOfReach.of_le {less : Nat} (h : OutOfReach p room bodies) (hle : less ≤ room) :
    OutOfReach p less bodies :=
  fun s hs => (Program.unrolled_extendedBy p hle).eq_none (h s hs)

theorem FieldsOutOfReach.of_le {less : Nat} (h : FieldsOutOfReach p room fields)
    (hle : less ≤ room) : FieldsOutOfReach p less fields :=
  fun key hkey => (Program.unrolledAnswer_extendedBy p hle).eq_none (h key hkey)

theorem OutOfReach.insert (h : OutOfReach p room bodies) (hs : p.unrolled room s = none) :
    OutOfReach p room (bodies.insert s) := by
  intro t ht
  rcases mem_insert_iff.mp ht with rfl | ht
  · exact hs
  · exact h t ht

theorem FieldsOutOfReach.insert {key : FieldKey} (h : FieldsOutOfReach p room fields)
    (hkey : p.unrolledAnswer room (.fieldSet key) = none) :
    FieldsOutOfReach p room (fields.insert key) := by
  intro k hk
  rcases mem_insert_iff.mp hk with rfl | hk
  · exact hkey
  · exact h k hk

def SummariesAgree (p : Program) (level : Nat) : Prop :=
  ∀ (room : Nat) (bodies : SignatureSet) (fields : FieldSet), level ≤ room →
    OutOfReach p level bodies → (∀ below < level, FieldsOutOfReach p below fields) →
    ∀ s, Agrees p bodies fields (summaryBy p room s) (p.unrolled level s)

def AnswersAgree (p : Program) (level : Nat) : Prop :=
  ∀ (room : Nat) (bodies : SignatureSet) (fields : FieldSet), level ≤ room →
    OutOfReach p level bodies → FieldsOutOfReach p level fields →
    ∀ q, Agrees p bodies fields (answerBy p (summaryBy p room) q) (p.unrolledAnswer level q)

/-- A signature without a body needs no room. -/
theorem summariesAgree_zero (p : Program) : SummariesAgree p 0 := by
  intro room bodies fields _ _ _ s v hv e he
  cases hkept : e.summaries[s]? with
  | some summary =>
    rw [run_summaryBy_of_kept hkept]
    exact ⟨(he.coherent.summaries s summary hkept 0 v hv).symm, he⟩
  | none =>
    simp only [Program.unrolled] at hv
    split at hv
    · cases hv
    next hbody =>
    cases hv
    cases room with
    | zero =>
      rw [run_summaryBy_zero hkept]
      exact ⟨rfl, he⟩
    | succ room =>
      rw [run_summaryBy_succ hkept]
      split
      · exact ⟨rfl, he⟩
      next hs =>
      rw [Program.summarize_of_body?_eq_none (by simpa using hbody)]
      exact ⟨rfl, (he.enter s).leave (he.inProgress ▸ hs)⟩

theorem summariesAgree_succ {level : Nat} (hsummaries : SummariesAgree p level)
    (hanswers : AnswersAgree p level) : SummariesAgree p (level + 1) := by
  intro room bodies fields hroom hbodies hfields s v hv e he
  cases hkept : e.summaries[s]? with
  | some summary =>
    rw [run_summaryBy_of_kept hkept]
    exact ⟨(he.coherent.summaries s summary hkept _ v hv).symm, he⟩
  | none =>
  cases hless : p.unrolled level s with
  | some w =>
    -- One level less is enough for this body.
    obtain rfl := Program.unrolled_unique hless hv
    exact hsummaries room bodies fields (by omega) (hbodies.of_le (by omega))
      (fun below hbelow => hfields below (by omega)) s w hless e he
  | none =>
  obtain ⟨room, rfl⟩ : ∃ r, room = r + 1 := ⟨room - 1, by omega⟩
  have hs : s ∉ bodies := fun hs => by simp [hbodies s hs] at hv
  rw [run_summaryBy_succ hkept, if_neg (he.inProgress ▸ hs)]
  -- While `s` is walked it is in progress, and its walk needs only what one level less reaches.
  have hinner := Agrees.script_run (hanswers room (bodies.insert s) fields (by omega)
    ((hbodies.of_le (by omega)).insert hless) (hfields level (by omega))) (Body.summarize p s)
  obtain ⟨hvalue, hbusy⟩ := hinner v hv (e.enter s) (he.enter s)
  refine ⟨hvalue, (hbusy.leave hs).keepSummary fun more w hw => ?_⟩
  rw [hvalue]
  exact Program.unrolled_unique hw hv

theorem fieldsAgree {level : Nat} (hsummaries : SummariesAgree p level) (hroom : level ≤ room)
    (hbodies : OutOfReach p level bodies) (hfields : FieldsOutOfReach p level fields)
    {key : FieldKey}
    (hless : ∀ below < level, p.unrolledAnswer below (.fieldSet key) = none) :
    Agrees p bodies fields (fieldSetBy p (summaryBy p room) key)
      (p.unrolledAnswer level (.fieldSet key)) := by
  intro v hv e he
  cases hkept : e.fields[key]? with
  | some set =>
    rw [run_fieldSetBy_of_kept hkept]
    exact ⟨(he.coherent.fields key set hkept _ v hv).symm, he⟩
  | none =>
  have hkey : key ∉ fields := fun hkey => by simp [hfields key hkey] at hv
  rw [run_fieldSetBy hkept, if_neg (he.fieldsInProgress ▸ hkey)]
  obtain ⟨w, hw, rfl⟩ := Option.map_eq_some_iff.mp hv
  have hinner := Agrees.writesBy (hsummaries room bodies (fields.insert key) hroom hbodies
    fun below hbelow => (hfields.of_le (by omega)).insert (hless below hbelow)) key
  obtain ⟨hvalue, hbusy⟩ := hinner w hw (e.enterField key) (he.enterField key)
  refine ⟨congrArg Writes.result hvalue, (hbusy.leaveField hkey).keepWrites fun more u hu => ?_⟩
  rw [hvalue]
  exact Program.unrolledAnswer_unique hu hv

theorem answersAgree_of_summaries {level : Nat} (hsummaries : SummariesAgree p level)
    (hanswers : ∀ below < level, AnswersAgree p below) : AnswersAgree p level := by
  intro room bodies fields hroom hbodies hfields q
  cases q with
  | returnSet m =>
    exact Agrees.returnSetBy (hsummaries room bodies fields hroom hbodies
      fun below hbelow => hfields.of_le (by omega)) m
  | fieldSet key =>
    by_cases hless : ∀ below < level, p.unrolledAnswer below (.fieldSet key) = none
    · exact fieldsAgree hsummaries hroom hbodies hfields hless
    · push Not at hless
      obtain ⟨below, hbelow, hsome⟩ := hless
      obtain ⟨w, hw⟩ := Option.ne_none_iff_exists'.mp hsome
      intro v hv e he
      obtain rfl := Program.unrolledAnswer_unique hw hv
      exact hanswers below hbelow room bodies fields (by omega) (hbodies.of_le (by omega))
        (hfields.of_le (by omega)) (.fieldSet key) w hw e he

theorem summariesAgree_and_answersAgree (p : Program) (level : Nat) :
    SummariesAgree p level ∧ AnswersAgree p level := by
  induction level using Nat.strongRecOn with
  | _ level ih =>
    have hsummaries : SummariesAgree p level := by
      cases level with
      | zero => exact summariesAgree_zero p
      | succ level =>
        obtain ⟨hsummaries, hanswers⟩ := ih level (by omega)
        exact summariesAgree_succ hsummaries hanswers
    exact ⟨hsummaries, answersAgree_of_summaries hsummaries fun below hbelow => (ih below hbelow).2⟩

end Engine

end JavaCallGraph
