import JavaCallGraph.Proofs.Unrolled

/-!
# What the engine keeps

The engine keeps summaries of bodies and sets of fields. It is coherent when each of them is what
the unrolled walk gives, wherever that gives a value. Taking a body or a field in hand, letting go
of it and keeping what was found leave the engine coherent.
-/

namespace JavaCallGraph

namespace Engine

variable {p : Program} {room : Nat} {s : Signature} {e : Engine}

theorem run_bind {α β : Type} (x : StateM Engine α) (f : α → StateM Engine β) (e : Engine) :
    (x >>= f).run e = (f (x.run e).1).run (x.run e).2 := rfl

theorem run_summaryBy_of_kept {summary : BodySummary} (h : e.summaries[s]? = some summary) :
    (summaryBy p room s).run e = (some summary, e) := by
  unfold summaryBy
  simp only [StateT.run_bind, StateT.run_get, pure_bind, h]
  rfl

theorem run_summaryBy_zero (h : e.summaries[s]? = none) : (summaryBy p 0 s).run e = (none, e) := by
  unfold summaryBy
  simp only [StateT.run_bind, StateT.run_get, pure_bind, h]
  rfl

theorem run_summaryBy_succ (h : e.summaries[s]? = none) :
    (summaryBy p (room + 1) s).run e =
      if s ∈ e.inProgress then (none, e)
      else
        let walked := ((Body.summarize p s).run (answerBy p (summaryBy p room))).run (e.enter s)
        (walked.1, (walked.2.leave s).keepSummary s walked.1) := by
  rw [summaryBy]
  simp only [StateT.run_bind, StateT.run_get, pure_bind, h, Std.ExtTreeSet.contains_iff_mem]
  split <;> rfl

theorem run_fieldSetBy_of_kept {summary : Signature → StateM Engine (Option BodySummary)}
    {key : FieldKey} {set : Option ConstraintSet} (h : e.fields[key]? = some set) :
    (fieldSetBy p summary key).run e = (set, e) := by
  unfold fieldSetBy
  simp only [StateT.run_bind, StateT.run_get, pure_bind, h]
  rfl

theorem run_fieldSetBy {summary : Signature → StateM Engine (Option BodySummary)}
    {key : FieldKey} (h : e.fields[key]? = none) :
    (fieldSetBy p summary key).run e =
      if key ∈ e.fieldsInProgress then (none, e)
      else
        let gathered := (writesBy p summary key).run (e.enterField key)
        (gathered.1.result, (gathered.2.leaveField key).keepWrites key gathered.1) := by
  unfold fieldSetBy
  simp only [StateT.run_bind, StateT.run_get, pure_bind, h, Std.ExtTreeSet.contains_iff_mem]
  split <;> rfl

/-! ### Coherence -/

structure Coherent (p : Program) (e : Engine) : Prop where
  summaries : ∀ s summary, e.summaries[s]? = some summary →
    ∀ room v, p.unrolled room s = some v → v = some summary
  fields : ∀ key set, e.fields[key]? = some set →
    ∀ room v, p.unrolledAnswer room (.fieldSet key) = some v → v = set

structure Busy (p : Program) (bodies : SignatureSet) (fields : FieldSet) (e : Engine) : Prop where
  coherent : Coherent p e
  inProgress : e.inProgress = bodies
  fieldsInProgress : e.fieldsInProgress = fields

variable {bodies : SignatureSet} {fields : FieldSet}

theorem Busy.enter (h : Busy p bodies fields e) (s : Signature) :
    Busy p (bodies.insert s) fields (e.enter s) :=
  ⟨⟨h.coherent.summaries, h.coherent.fields⟩, congrArg (·.insert s) h.inProgress,
    h.fieldsInProgress⟩

theorem Busy.enterField (h : Busy p bodies fields e) (key : FieldKey) :
    Busy p bodies (fields.insert key) (e.enterField key) :=
  ⟨⟨h.coherent.summaries, h.coherent.fields⟩, h.inProgress,
    congrArg (·.insert key) h.fieldsInProgress⟩

theorem Busy.leave (h : Busy p (bodies.insert s) fields e) (hs : s ∉ bodies) :
    Busy p bodies fields (e.leave s) := by
  refine ⟨⟨h.coherent.summaries, h.coherent.fields⟩, ?_, h.fieldsInProgress⟩
  rw [Engine.leave, h.inProgress]
  exact erase_insert_of_not_mem hs

theorem Busy.leaveField {key : FieldKey} (h : Busy p bodies (fields.insert key) e)
    (hkey : key ∉ fields) : Busy p bodies fields (e.leaveField key) := by
  refine ⟨⟨h.coherent.summaries, h.coherent.fields⟩, h.inProgress, ?_⟩
  rw [Engine.leaveField, h.fieldsInProgress]
  exact erase_insert_of_not_mem hkey

theorem Busy.keepSummary {walked : Option BodySummary} (h : Busy p bodies fields e)
    (hwalked : ∀ room v, p.unrolled room s = some v → v = walked) :
    Busy p bodies fields (e.keepSummary s walked) := by
  cases walked with
  | none => exact h
  | some summary =>
    refine ⟨⟨?_, h.coherent.fields⟩, h.inProgress, h.fieldsInProgress⟩
    exact forall_getElem?_insert h.coherent.summaries hwalked

theorem Busy.keepWrites {key : FieldKey} {w : Writes} (h : Busy p bodies fields e)
    (hw : ∀ room v, p.unrolledAnswer room (.fieldSet key) = some v → v = w.result) :
    Busy p bodies fields (e.keepWrites key w) := by
  unfold Engine.keepWrites
  split
  · exact h
  · refine ⟨⟨h.coherent.summaries, ?_⟩, h.inProgress, h.fieldsInProgress⟩
    exact forall_getElem?_insert h.coherent.fields hw

end Engine

end JavaCallGraph
