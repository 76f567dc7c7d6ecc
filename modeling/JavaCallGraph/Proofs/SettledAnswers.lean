import JavaCallGraph.Proofs.EngineMachine
import JavaCallGraph.Proofs.WalkCallees

/-!
# Answers that last

Whatever the engine has in progress and however little room it has left, a question that it has
answered once gets the same answer again. The answer can be read off what the engine keeps, and
asking for it changes nothing. So a script that has been run on the engine can be run on the
answers that it leaves, and once more on the engine with the same result.
-/

namespace JavaCallGraph

/-- A body that can be walked gets a summary. -/
theorem Body.all_isSome_summarize {p : Program} {s : Signature}
    (h : (p.body? s >>= Body.passOf p).isNone = false) :
    (Body.summarize p s).All fun found => found.isSome := by
  unfold Body.summarize
  split
  · next hnone => simp [hnone] at h
  · exact (Script.all_of_forall (fun _ => trivial) _).bind fun _ _ => rfl

namespace Engine

variable {p : Program} {room : Nat} {s : Signature} {e e' : Engine}

/-! ### Bodies -/

/-- Nothing more is to be found out about the body: its summary is kept or being made, or there is
no room for it, or there is no such body. -/
def Final (p : Program) (room : Nat) (e : Engine) (s : Signature) : Prop :=
  e.summaries[s]?.isSome ∨ room = 0 ∨ s ∈ e.inProgress ∨ (p.body? s >>= Body.passOf p).isNone

instance : Decidable (Final p room e s) := inferInstanceAs (Decidable (_ ∨ _ ∨ _ ∨ _))

theorem leave_enter (hs : s ∉ e.inProgress) : (e.enter s).leave s = e := by
  rw [leave, enter, erase_insert_of_not_mem hs]

theorem summarize_of_isNone (h : (p.body? s >>= Body.passOf p).isNone) :
    Body.summarize p s = .done none := by
  rw [Body.summarize, Option.isNone_iff_eq_none.mp h]
  rfl

theorem run_summaryBy_of_final (h : Final p room e s) :
    (summaryBy p room s).run e = (e.summaries[s]?, e) := by
  cases hkept : e.summaries[s]? with
  | some summary => exact run_summaryBy_of_kept hkept
  | none =>
    cases room with
    | zero => exact run_summaryBy_zero hkept
    | succ room =>
      rw [run_summaryBy_succ hkept]
      split
      · rfl
      · next hbusy =>
        have hbody : (p.body? s >>= Body.passOf p).isNone := by simpa [Final, hkept, hbusy] using h
        rw [summarize_of_isNone hbody]
        exact congrArg (none, ·) (leave_enter hbusy)

/-- The second engine knows all that the first one knows, and has the same in progress. About what
is final there is nothing new. A field is new only if all bodies that may write to it are kept. -/
structure Learns (p : Program) (room : Nat) (e e' : Engine) : Prop where
  inProgress : e'.inProgress = e.inProgress
  fieldsInProgress : e'.fieldsInProgress = e.fieldsInProgress
  summaries : ∀ s, Final p room e s → e'.summaries[s]? = e.summaries[s]?
  fields : ∀ key : FieldKey, e.fields[key]?.isSome ∨ key ∈ e.fieldsInProgress →
    e'.fields[key]? = e.fields[key]?
  gathered : ∀ key : FieldKey, e.fields[key]? = none → e'.fields[key]?.isSome →
    ∀ s ∈ writers p key.declaring, e'.summaries[s]?.isSome

namespace Learns

theorem refl (p : Program) (room : Nat) (e : Engine) : Learns p room e e where
  inProgress := rfl
  fieldsInProgress := rfl
  summaries _ _ := rfl
  fields _ _ := rfl
  gathered key hnone hsome := by simp [hnone] at hsome

theorem final (h : Learns p room e e') (hs : Final p room e s) : Final p room e' s := by
  have hsummary := h.summaries s hs
  unfold Final at hs ⊢
  rw [hsummary, h.inProgress]
  exact hs

theorem isSome_summaries (h : Learns p room e e') (hs : e.summaries[s]?.isSome) :
    e'.summaries[s]?.isSome := by
  rw [h.summaries s (.inl hs)]
  exact hs

theorem trans {e'' : Engine} (h : Learns p room e e') (h' : Learns p room e' e'') :
    Learns p room e e'' where
  inProgress := h'.inProgress.trans h.inProgress
  fieldsInProgress := h'.fieldsInProgress.trans h.fieldsInProgress
  summaries s hs := (h'.summaries s (h.final hs)).trans (h.summaries s hs)
  fields key hkey := by
    have hfirst := h.fields key hkey
    rw [← hfirst]
    refine h'.fields key ?_
    rw [hfirst, h.fieldsInProgress]
    exact hkey
  gathered key hnone hsome := by
    cases hmid : e'.fields[key]? with
    | none => exact h'.gathered key hmid hsome
    | some set =>
      intro s hs
      exact h'.isSome_summaries (h.gathered key hnone (by simp [hmid]) s hs)

/-- Making the summary of a body that had none. -/
theorem of_enter {walked : Option BodySummary} (h : Learns p room (e.enter s) e')
    (hs : ¬ Final p (room + 1) e s) :
    Learns p (room + 1) e ((e'.leave s).keepSummary s walked) := by
  have hbusy : s ∉ e.inProgress := fun hmem => hs (.inr (.inr (.inl hmem)))
  have hkeep : ((e'.leave s).keepSummary s walked).inProgress = e'.inProgress.erase s ∧
      ((e'.leave s).keepSummary s walked).fieldsInProgress = e'.fieldsInProgress ∧
      ((e'.leave s).keepSummary s walked).fields = e'.fields := by
    cases walked <;> exact ⟨rfl, rfl, rfl⟩
  refine ⟨?_, ?_, fun t ht => ?_, ?_, fun key hnone hsome t ht => ?_⟩
  · rw [hkeep.1, h.inProgress]
    exact erase_insert_of_not_mem hbusy
  · rw [hkeep.2.1, h.fieldsInProgress]
    rfl
  · have hne : t ≠ s := fun heq => hs (heq ▸ ht)
    rw [getElem?_summaries_keepSummary hne]
    refine h.summaries t ?_
    -- What is final with more room is final inside the body too.
    rcases ht with hkept | hroom | hmem | hnone
    · exact .inl hkept
    · cases hroom
    · exact .inr (.inr (.inl (mem_insert_iff.mpr (.inr hmem))))
    · exact .inr (.inr (.inr hnone))
  · rw [hkeep.2.2]
    exact h.fields
  · rw [hkeep.2.2] at hsome
    have hkept := h.gathered key hnone hsome t ht
    by_cases hts : t = s
    · subst hts
      cases walked with
      | none => exact hkept
      | some summary => simp [keepSummary]
    · rw [getElem?_summaries_keepSummary hts]
      exact hkept

end Learns

/-! ### Fields -/

def writesOf (p : Program) (e : Engine) (key : FieldKey) : Writes :=
  (writers p key.declaring).foldl (fun w s => w.add key e.summaries[s]?) {}

theorem incomplete_foldl_add (key : FieldKey) (summary : Signature → Option BodySummary)
    (sigs : List Signature) (w : Writes) :
    (sigs.foldl (fun w s => w.add key (summary s)) w).incomplete ↔
      w.incomplete ∨ ∃ s ∈ sigs, summary s = none := by
  induction sigs generalizing w with
  | nil => simp
  | cons s sigs ih =>
    have hadd : (w.add key (summary s)).incomplete ↔ w.incomplete ∨ summary s = none := by
      cases summary s with
      | none => simp [Writes.add]
      | some found =>
        simp only [Writes.add, reduceCtorEq, or_false]
        split <;> rfl
    rw [List.foldl_cons, ih, hadd]
    simp [or_assoc]

theorem incomplete_writesOf {key : FieldKey} :
    (writesOf p e key).incomplete ↔ ∃ s ∈ writers p key.declaring, e.summaries[s]? = none := by
  rw [writesOf, incomplete_foldl_add]
  simp

/-- What the engine keeps answers the question, or says that there is no answer. -/
def Settled (p : Program) (room : Nat) (e : Engine) : Question → Prop
  | .returnSet m => Final p room e m.signature
  | .fieldSet key => e.fields[key]?.isSome ∨ key ∈ e.fieldsInProgress ∨
      (∀ s ∈ writers p key.declaring, Final p room e s) ∧ (writesOf p e key).incomplete

instance (q : Question) : Decidable (Settled p room e q) :=
  match q with
  | .returnSet m => inferInstanceAs (Decidable (Final p room e m.signature))
  | .fieldSet _ => inferInstanceAs (Decidable (_ ∨ _ ∨ _ ∧ _))

/-- The answer according to what is kept. -/
def remembered (p : Program) (e : Engine) : Question → Option ConstraintSet
  | .returnSet m => returnsOf e.summaries[m.signature]?
  | .fieldSet key => e.fields[key]?.getD
      (if key ∈ e.fieldsInProgress then none else (writesOf p e key).result)

theorem Learns.writesOf_eq (h : Learns p room e e') {key : FieldKey}
    (hfinal : ∀ s ∈ writers p key.declaring, Final p room e s) :
    writesOf p e' key = writesOf p e key := by
  unfold writesOf
  apply List.foldl_ext
  intro w s hs
  rw [h.summaries s (hfinal s hs)]

/-- A settled question stays settled, with the same answer. -/
theorem Learns.settled (h : Learns p room e e') {q : Question} (hq : Settled p room e q) :
    Settled p room e' q ∧ remembered p e' q = remembered p e q := by
  cases q with
  | returnSet m => exact ⟨h.final hq, congrArg returnsOf (h.summaries _ hq)⟩
  | fieldSet key =>
    simp only [Settled, remembered, h.fieldsInProgress]
    rcases hq with hkept | hbusy | ⟨hfinal, hincomplete⟩
    · rw [h.fields key (.inl hkept)]
      refine ⟨.inl hkept, ?_⟩
      obtain ⟨set, hset⟩ := Option.isSome_iff_exists.mp hkept
      rw [hset]
      rfl
    · rw [h.fields key (.inr hbusy), if_pos hbusy, if_pos hbusy]
      exact ⟨.inr (.inl hbusy), rfl⟩
    · have hwrites := h.writesOf_eq hfinal
      rw [hwrites]
      refine ⟨.inr (.inr ⟨fun s hs => h.final (hfinal s hs), hincomplete⟩), ?_⟩
      cases hkept : e.fields[key]? with
      | some set =>
        rw [h.fields key (.inl (by simp [hkept])), hkept]
      | none =>
        -- One of the writers has no summary and gets none, so the field is not kept.
        cases hkept' : e'.fields[key]? with
        | none => rfl
        | some set =>
          obtain ⟨s, hs, hsnone⟩ := incomplete_writesOf.mp hincomplete
          have hsome := h.gathered key hkept (by simp [hkept']) s hs
          rw [h.summaries s (hfinal s hs), hsnone] at hsome
          cases hsome

/-- Gathering the writes to a field that was not kept. -/
theorem Learns.of_enterField {key : FieldKey} {w : Writes} (h : Learns p room (e.enterField key) e')
    (hkept : e.fields[key]? = none) (hbusy : key ∉ e.fieldsInProgress)
    (hfinal : ∀ s ∈ writers p key.declaring, Final p room e' s) (hw : w = writesOf p e' key) :
    Learns p room e ((e'.leaveField key).keepWrites key w) ∧
      Settled p room ((e'.leaveField key).keepWrites key w) (.fieldSet key) ∧
      w.result = remembered p ((e'.leaveField key).keepWrites key w) (.fieldSet key) := by
  -- While the field is being gathered it is not kept.
  have hnone : e'.fields[key]? = none := by
    rw [h.fields key (.inr (mem_insert_iff.mpr (.inl rfl)))]
    exact hkept
  have hfields : e'.fieldsInProgress.erase key = e.fieldsInProgress := by
    rw [h.fieldsInProgress]
    exact erase_insert_of_not_mem hbusy
  by_cases hincomplete : w.incomplete
  · have hkeep : (e'.leaveField key).keepWrites key w = e'.leaveField key := if_pos hincomplete
    rw [hkeep]
    refine ⟨⟨h.inProgress, hfields, h.summaries, fun other ho => ?_, h.gathered⟩, ?_, ?_⟩
    · exact h.fields other (ho.imp_right fun hmem => mem_insert_iff.mpr (.inr hmem))
    · exact .inr (.inr ⟨hfinal, hw ▸ hincomplete⟩)
    · have hremembered : remembered p (e'.leaveField key) (.fieldSet key) =
          if key ∈ e'.fieldsInProgress.erase key then none else (writesOf p e' key).result := by
        simp only [remembered, leaveField, hnone, Option.getD_none]
        rfl
      rw [hremembered, hfields, if_neg hbusy, hw]
  · have hkeep : (e'.leaveField key).keepWrites key w =
        { e'.leaveField key with fields := e'.fields.insert key w.result } := if_neg hincomplete
    rw [hkeep]
    refine ⟨⟨h.inProgress, hfields, h.summaries, fun other ho => ?_, fun other honone hosome => ?_⟩,
      .inl (by simp), by simp [remembered]⟩
    · have hne : key ≠ other := by
        rintro rfl
        simp [hkept, hbusy] at ho
      simp only [Std.ExtTreeMap.getElem?_insert, Std.LawfulEqCmp.compare_eq_iff_eq, hne, if_false]
      exact h.fields other (ho.imp_right fun hmem => mem_insert_iff.mpr (.inr hmem))
    · by_cases hne : key = other
      · subst hne
        rw [hw, incomplete_writesOf] at hincomplete
        intro s hs
        rw [Option.isSome_iff_ne_none]
        exact fun hsnone => hincomplete ⟨s, hs, hsnone⟩
      · simp only [Std.ExtTreeMap.getElem?_insert, Std.LawfulEqCmp.compare_eq_iff_eq, hne,
          if_false] at hosome
        exact h.gathered other honone hosome

/-! ### Asking -/

def SummariesLast (p : Program) (room : Nat) : Prop :=
  ∀ (s : Signature) (e : Engine), Learns p room e ((summaryBy p room s).run e).2 ∧
    Final p room ((summaryBy p room s).run e).2 s ∧
    ((summaryBy p room s).run e).1 = ((summaryBy p room s).run e).2.summaries[s]?

def gatherBy (p : Program) (room : Nat) (key : FieldKey) (w : Writes) (sigs : List Signature) :
    StateM Engine Writes :=
  sigs.foldlM (fun (w : Writes) s => do return w.add key (← summaryBy p room s)) w

theorem run_gatherBy_cons (key : FieldKey) (w : Writes) (s : Signature) (sigs : List Signature)
    (e : Engine) :
    (gatherBy p room key w (s :: sigs)).run e =
      (gatherBy p room key (w.add key ((summaryBy p room s).run e).1) sigs).run
        ((summaryBy p room s).run e).2 := by
  rw [gatherBy, List.foldlM_cons]
  rfl

theorem SummariesLast.gatherBy (h : SummariesLast p room) (key : FieldKey) (w : Writes)
    (sigs : List Signature) (e : Engine) :
    let gathered := (gatherBy p room key w sigs).run e
    Learns p room e gathered.2 ∧ (∀ s ∈ sigs, Final p room gathered.2 s) ∧
      gathered.1 = sigs.foldl (fun w s => w.add key gathered.2.summaries[s]?) w := by
  induction sigs generalizing w e with
  | nil => exact ⟨.refl p room e, nofun, rfl⟩
  | cons s sigs ih =>
    obtain ⟨hfirst, hfinal, hvalue⟩ := h s e
    rw [run_gatherBy_cons]
    dsimp only
    rw [List.foldl_cons]
    generalize (summaryBy p room s).run e = found at hfirst hfinal hvalue ⊢
    obtain ⟨hrest, hfinals, hvalues⟩ := ih (w.add key found.1) found.2
    generalize (Engine.gatherBy p room key (w.add key found.1) sigs).run found.2 = gathered at *
    refine ⟨hfirst.trans hrest, List.forall_mem_cons.mpr ⟨hrest.final hfinal, hfinals⟩, ?_⟩
    rw [hrest.summaries s hfinal, ← hvalue]
    exact hvalues

theorem run_gatherBy_of_final (key : FieldKey) (w : Writes) {sigs : List Signature}
    (h : ∀ s ∈ sigs, Final p room e s) :
    (gatherBy p room key w sigs).run e =
      (sigs.foldl (fun w s => w.add key e.summaries[s]?) w, e) := by
  induction sigs generalizing w with
  | nil => rfl
  | cons s sigs ih =>
    rw [run_gatherBy_cons, run_summaryBy_of_final (h s List.mem_cons_self), List.foldl_cons]
    exact ih _ fun t ht => h t (List.mem_cons_of_mem s ht)

theorem SummariesLast.fieldSetBy (h : SummariesLast p room) (key : FieldKey) (e : Engine) :
    let answered := (fieldSetBy p (summaryBy p room) key).run e
    Learns p room e answered.2 ∧ Settled p room answered.2 (.fieldSet key) ∧
      answered.1 = remembered p answered.2 (.fieldSet key) := by
  dsimp only
  cases hkept : e.fields[key]? with
  | some set =>
    rw [run_fieldSetBy_of_kept hkept]
    exact ⟨.refl p room e, .inl (by simp [hkept]), by simp [remembered, hkept]⟩
  | none =>
    rw [run_fieldSetBy hkept]
    split
    · next hbusy => exact ⟨.refl p room e, .inr (.inl hbusy), by simp [remembered, hkept, hbusy]⟩
    · next hbusy =>
      obtain ⟨hlearns, hfinal, hwrites⟩ :=
        h.gatherBy key {} (writers p key.declaring) (e.enterField key)
      change (writesBy p (summaryBy p room) key |>.run (e.enterField key)).1 = _ at hwrites
      exact hlearns.of_enterField hkept hbusy hfinal hwrites

theorem SummariesLast.answerBy (h : SummariesLast p room) (q : Question) (e : Engine) :
    let answered := (answerBy p (summaryBy p room) q).run e
    Learns p room e answered.2 ∧ Settled p room answered.2 q ∧
      answered.1 = remembered p answered.2 q := by
  cases q with
  | fieldSet key => exact h.fieldSetBy key e
  | returnSet m =>
    obtain ⟨hlearns, hfinal, hvalue⟩ := h m.signature e
    have hrun : (Engine.answerBy p (summaryBy p room) (.returnSet m)).run e =
        (returnsOf ((summaryBy p room m.signature).run e).1,
          ((summaryBy p room m.signature).run e).2) := by
      rw [Engine.answerBy, returnSetBy, run_bind]
      generalize (summaryBy p room m.signature).run e = found
      cases found.1 <;> rfl
    rw [hrun]
    exact ⟨hlearns, hfinal, congrArg returnsOf hvalue⟩

theorem run_answerBy_of_settled {q : Question} (hq : Settled p room e q) :
    (answerBy p (summaryBy p room) q).run e = (remembered p e q, e) := by
  cases q with
  | returnSet m =>
    rw [answerBy, returnSetBy, run_bind, run_summaryBy_of_final hq]
    simp only [remembered]
    cases e.summaries[m.signature]? <;> rfl
  | fieldSet key =>
    rw [answerBy]
    cases hkept : e.fields[key]? with
    | some set =>
      rw [run_fieldSetBy_of_kept hkept]
      simp [remembered, hkept]
    | none =>
    rw [run_fieldSetBy hkept]
    split
    · next hbusy => simp [remembered, hkept, hbusy]
    next hbusy =>
    obtain ⟨hfinal, hincomplete⟩ : (∀ s ∈ writers p key.declaring, Final p room e s) ∧
        (writesOf p e key).incomplete := by simpa [Settled, hkept, hbusy] using hq
    have hrun : (writesBy p (summaryBy p room) key).run (e.enterField key) =
        (writesOf p e key, e.enterField key) := run_gatherBy_of_final key {} hfinal
    have hleave : (e.enterField key).leaveField key = e := by
      rw [leaveField, enterField, erase_insert_of_not_mem hbusy]
    rw [hrun]
    simp [keepWrites, hincomplete, remembered, hkept, hbusy, hleave]

/-! ### Scripts -/

def known (p : Program) (room : Nat) (e : Engine) (q : Question) : Option (Option ConstraintSet) :=
  if Settled p room e q then some (remembered p e q) else none

theorem known_eq_some {q : Question} {answer : Option ConstraintSet} :
    known p room e q = some answer ↔ Settled p room e q ∧ remembered p e q = answer := by
  simp [known]

theorem Learns.known (h : Learns p room e e') :
    Program.ExtendedBy (known p room e) (Engine.known p room e') := by
  intro q answer hq
  obtain ⟨hsettled, rfl⟩ := known_eq_some.mp hq
  exact known_eq_some.mpr (h.settled hsettled)

theorem SummariesLast.script_run {α : Type} (h : SummariesLast p room) (script : Script α)
    (e : Engine) :
    let ran := (script.run (Engine.answerBy p (summaryBy p room))).run e
    Learns p room e ran.2 ∧ script.run (Engine.known p room ran.2) = some ran.1 := by
  induction script generalizing e with
  | done a => exact ⟨.refl p room e, rfl⟩
  | ask q next ih =>
    obtain ⟨hfirst, hsettled, hanswer⟩ := h.answerBy q e
    obtain ⟨hrest, hnext⟩ := ih ((Engine.answerBy p (summaryBy p room) q).run e).1
      ((Engine.answerBy p (summaryBy p room) q).run e).2
    refine ⟨hfirst.trans hrest, ?_⟩
    have hq := hrest.known q _ (known_eq_some.mpr ⟨hsettled, hanswer.symm⟩)
    exact Option.bind_eq_some_iff.mpr ⟨_, hq, hnext⟩

theorem summariesLast (p : Program) (room : Nat) : SummariesLast p room := by
  induction room with
  | zero =>
    intro s e
    have hfinal : Final p 0 e s := .inr (.inl rfl)
    rw [run_summaryBy_of_final hfinal]
    exact ⟨.refl p 0 e, hfinal, rfl⟩
  | succ room ih =>
    intro s e
    by_cases hfinal : Final p (room + 1) e s
    · rw [run_summaryBy_of_final hfinal]
      exact ⟨.refl p (room + 1) e, hfinal, rfl⟩
    · have hkept : e.summaries[s]? = none := by
        rw [← Option.not_isSome_iff_eq_none]
        exact fun hsome => hfinal (.inl hsome)
      have hbusy : s ∉ e.inProgress := fun hmem => hfinal (.inr (.inr (.inl hmem)))
      have hbody : (p.body? s >>= Body.passOf p).isNone = false :=
        Bool.eq_false_iff.mpr fun hnone => hfinal (.inr (.inr (.inr hnone)))
      rw [run_summaryBy_succ hkept, if_neg hbusy]
      obtain ⟨hlearns, -⟩ := ih.script_run (Body.summarize p s) (e.enter s)
      have hsome := (Body.all_isSome_summarize hbody).run
        (Engine.answerBy p (summaryBy p room)) (e.enter s)
      refine ⟨hlearns.of_enter hfinal, ?_⟩
      generalize ((Body.summarize p s).run (Engine.answerBy p (summaryBy p room))).run
        (e.enter s) = walked at hsome ⊢
      obtain ⟨summary, hsummary⟩ := Option.isSome_iff_exists.mp hsome
      dsimp only
      rw [hsummary]
      exact ⟨.inl (by simp [keepSummary]), by simp [keepSummary]⟩

end Engine

end JavaCallGraph
