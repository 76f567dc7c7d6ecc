import JavaCallGraph.Proofs.QueryHistory
import Mathlib.Logic.Relation

/-!
# The engine step by step

A machine that answers a list of queries one small step after the other. Nothing bounds its steps:
how deep summaries are nested is counted, and what waits for an answer stands on a stack. Every step
keeps the books in order (`Machine.Inv`) and replaces nothing that is kept (`Engine.KeptBy`).
-/

namespace JavaCallGraph

namespace Engine

def returnsOf : Option BodySummary → Option ConstraintSet
  | some s => if s.returns.unresolved || s.returns.isEmpty then none else some s.returns
  | none => none

inductive Reply where
  | callees (found : SignatureSet)
  | summary (found : Option BodySummary)
  | set (found : Option ConstraintSet)

/-- What is suspended until something else is answered. -/
inductive Frame where
  /-- The walk of a body that is being summarized. -/
  | body (s : Signature)
  /-- A walk that has asked a question. -/
  | asked (next : Option ConstraintSet → Script (Option BodySummary))
  /-- The question what a method returns. -/
  | returns
  /-- Gathering the writes to a field, with the bodies that are still to be looked at. -/
  | writes (key : FieldKey) (found : Writes) (rest : List Signature)

/-- What the machine is about to do. -/
inductive Control where
  | idle
  /-- A body walk is running. -/
  | walk (rest : Script (Option BodySummary))
  | question (q : Question)
  | summary (s : Signature)
  | gather (key : FieldKey) (found : Writes) (rest : List Signature)
  | walked (found : Option BodySummary)
  | summarized (found : Option BodySummary)
  | answered (found : Option ConstraintSet)

structure Machine where
  engine : Engine := {}
  /-- How many summaries are being made, one inside the other. -/
  depth : Nat := 0
  /-- The innermost frame first. -/
  stack : List Frame := []
  control : Control := .idle
  /-- The queries that have not been asked yet. -/
  queries : List Query
  replies : List Reply := []

def Query.start (p : Program) : Query → Control
  | callees s => .walk (Body.summarize p s)
  | summary s => .summary s
  | answer q => .question q

namespace Machine

def initial (queries : List Query) : Machine := { queries }

def reply (m : Machine) (r : Reply) : Machine :=
  { m with control := .idle, replies := m.replies ++ [r] }

inductive Step (p : Program) (m : Machine) : Machine → Prop where
  | ask {q : Query} {rest : List Query} (hc : m.control = .idle) (hq : m.queries = q :: rest) :
      Step p m { m with control := q.start p, queries := rest }
  | walkEnds {found : Option BodySummary} (hc : m.control = .walk (.done found)) :
      Step p m { m with control := .walked found }
  | walkAsks {q : Question} {next : Option ConstraintSet → Script (Option BodySummary)}
      (hc : m.control = .walk (.ask q next)) :
      Step p m { m with control := .question q, stack := .asked next :: m.stack }
  | askReturns {method : Method} (hc : m.control = .question (.returnSet method)) :
      Step p m { m with control := .summary method.signature, stack := .returns :: m.stack }
  | fieldKept {key : FieldKey} {set : Option ConstraintSet}
      (hc : m.control = .question (.fieldSet key)) (hkept : m.engine.fields[key]? = some set) :
      Step p m { m with control := .answered set }
  | fieldBusy {key : FieldKey} (hc : m.control = .question (.fieldSet key))
      (hkept : m.engine.fields[key]? = none) (hbusy : key ∈ m.engine.fieldsInProgress) :
      Step p m { m with control := .answered none }
  | enterField {key : FieldKey} (hc : m.control = .question (.fieldSet key))
      (hkept : m.engine.fields[key]? = none) (hbusy : key ∉ m.engine.fieldsInProgress) :
      Step p m { m with
        engine := m.engine.enterField key
        control := .gather key {} (writers p key.declaring) }
  | lookAt {key : FieldKey} {found : Writes} {s : Signature} {rest : List Signature}
      (hc : m.control = .gather key found (s :: rest)) :
      Step p m { m with control := .summary s, stack := .writes key found rest :: m.stack }
  | leaveField {key : FieldKey} {found : Writes} (hc : m.control = .gather key found []) :
      Step p m { m with
        engine := (m.engine.leaveField key).keepWrites key found
        control := .answered found.result }
  | summaryKept {s : Signature} {summary : BodySummary} (hc : m.control = .summary s)
      (hkept : m.engine.summaries[s]? = some summary) :
      Step p m { m with control := .summarized (some summary) }
  | tooDeep {s : Signature} (hc : m.control = .summary s)
      (hkept : m.engine.summaries[s]? = none) (hdepth : maxDepth ≤ m.depth) :
      Step p m { m with control := .summarized none }
  | bodyBusy {s : Signature} (hc : m.control = .summary s)
      (hkept : m.engine.summaries[s]? = none) (hdepth : m.depth < maxDepth)
      (hbusy : s ∈ m.engine.inProgress) :
      Step p m { m with control := .summarized none }
  | enter {s : Signature} (hc : m.control = .summary s)
      (hkept : m.engine.summaries[s]? = none) (hdepth : m.depth < maxDepth)
      (hbusy : s ∉ m.engine.inProgress) :
      Step p m { m with
        engine := m.engine.enter s
        depth := m.depth + 1
        stack := .body s :: m.stack
        control := .walk (Body.summarize p s) }
  | leave {s : Signature} {found : Option BodySummary} {rest : List Frame}
      (hc : m.control = .walked found) (hs : m.stack = .body s :: rest) :
      Step p m { m with
        engine := (m.engine.leave s).keepSummary s found
        depth := m.depth - 1
        stack := rest
        control := .summarized found }
  | returned {found : Option BodySummary} {rest : List Frame}
      (hc : m.control = .summarized found) (hs : m.stack = .returns :: rest) :
      Step p m { m with control := .answered (returnsOf found), stack := rest }
  | lookedAt {found : Option BodySummary} {key : FieldKey} {w : Writes} {sigs : List Signature}
      {rest : List Frame} (hc : m.control = .summarized found)
      (hs : m.stack = .writes key w sigs :: rest) :
      Step p m { m with control := .gather key (w.add key found) sigs, stack := rest }
  | resume {found : Option ConstraintSet} {rest : List Frame}
      {next : Option ConstraintSet → Script (Option BodySummary)}
      (hc : m.control = .answered found) (hs : m.stack = .asked next :: rest) :
      Step p m { m with control := .walk (next found), stack := rest }
  | replyCallees {found : Option BodySummary} (hc : m.control = .walked found)
      (hs : m.stack = []) :
      Step p m (m.reply (.callees ((found.map BodySummary.callees).getD ∅)))
  | replySummary {found : Option BodySummary} (hc : m.control = .summarized found)
      (hs : m.stack = []) : Step p m (m.reply (.summary found))
  | replySet {found : Option ConstraintSet} (hc : m.control = .answered found)
      (hs : m.stack = []) : Step p m (m.reply (.set found))

abbrev Steps (p : Program) : Machine → Machine → Prop := Relation.ReflTransGen (Step p)

variable {p : Program} {m m' : Machine}

theorem Step.deterministic {a b : Machine} (ha : Step p m a) (hb : Step p m b) : a = b := by
  cases ha <;> cases hb <;> grind

/-! ### What a step keeps -/

end Machine

structure KeptBy (e e' : Engine) : Prop where
  summaries : ∀ (s : Signature) (summary : BodySummary),
    e.summaries[s]? = some summary → e'.summaries[s]? = some summary
  fields : ∀ (key : FieldKey) (set : Option ConstraintSet),
    e.fields[key]? = some set → e'.fields[key]? = some set

variable {e e' : Engine}

theorem KeptBy.of_eq (hsummaries : e'.summaries = e.summaries) (hfields : e'.fields = e.fields) :
    e.KeptBy e' := by
  refine ⟨fun s summary h => ?_, fun key set h => ?_⟩
  · rw [hsummaries]
    exact h
  · rw [hfields]
    exact h

theorem KeptBy.trans {f : Engine} (h : e.KeptBy e') (h' : e'.KeptBy f) : e.KeptBy f :=
  ⟨fun s summary hs => h'.summaries s summary (h.summaries s summary hs),
    fun key set hkey => h'.fields key set (h.fields key set hkey)⟩

theorem getElem?_summaries_keepSummary {s t : Signature} (h : t ≠ s) (found : Option BodySummary) :
    (e.keepSummary s found).summaries[t]? = e.summaries[t]? := by
  cases found with
  | none => rfl
  | some summary => simp [keepSummary, Std.ExtTreeMap.getElem?_insert, h.symm]

theorem getElem?_fields_keepWrites {key other : FieldKey} (h : other ≠ key) (w : Writes) :
    (e.keepWrites key w).fields[other]? = e.fields[other]? := by
  unfold keepWrites
  split
  · rfl
  · simp [Std.ExtTreeMap.getElem?_insert, h.symm]

/-- The engine has exactly these bodies and fields in progress, each once, and keeps nothing about
any of them. -/
structure InHand (e : Engine) (bodies : List Signature) (fields : List FieldKey) : Prop where
  bodies_nodup : bodies.Nodup
  fields_nodup : fields.Nodup
  mem_inProgress : ∀ s, s ∈ e.inProgress ↔ s ∈ bodies
  mem_fieldsInProgress : ∀ key, key ∈ e.fieldsInProgress ↔ key ∈ fields
  summaries_eq_none : ∀ s ∈ bodies, e.summaries[s]? = none
  fields_eq_none : ∀ key ∈ fields, e.fields[key]? = none

namespace InHand

variable {bodies : List Signature} {fields : List FieldKey} {s : Signature} {key : FieldKey}

theorem initial : InHand {} [] [] where
  bodies_nodup := .nil
  fields_nodup := .nil
  mem_inProgress := by simp
  mem_fieldsInProgress := by simp
  summaries_eq_none := by simp
  fields_eq_none := by simp

theorem size_inProgress (h : e.InHand bodies fields) : e.inProgress.size = bodies.length := by
  have hperm : e.inProgress.toList.Perm bodies := by
    refine (List.perm_ext_iff_of_nodup (nodup_toList e.inProgress) h.bodies_nodup).mpr fun s => ?_
    rw [Std.ExtTreeSet.mem_toList, h.mem_inProgress]
  simpa using hperm.length_eq

theorem enter (h : e.InHand bodies fields) (hs : s ∉ e.inProgress)
    (hkept : e.summaries[s]? = none) : (e.enter s).InHand (s :: bodies) fields where
  bodies_nodup := List.nodup_cons.mpr ⟨mt (h.mem_inProgress s).mpr hs, h.bodies_nodup⟩
  fields_nodup := h.fields_nodup
  mem_inProgress t := by rw [Engine.enter, mem_insert_iff, h.mem_inProgress, List.mem_cons]
  mem_fieldsInProgress := h.mem_fieldsInProgress
  summaries_eq_none := List.forall_mem_cons.mpr ⟨hkept, h.summaries_eq_none⟩
  fields_eq_none := h.fields_eq_none

theorem leave (h : e.InHand (s :: bodies) fields) (found : Option BodySummary) :
    ((e.leave s).keepSummary s found).InHand bodies fields := by
  obtain ⟨hnotMem, hnodup⟩ := List.nodup_cons.mp h.bodies_nodup
  have hne {t : Signature} (ht : t ∈ bodies) : t ≠ s := fun heq => hnotMem (heq ▸ ht)
  have hrest : ((e.leave s).keepSummary s found).inProgress = e.inProgress.erase s ∧
      ((e.leave s).keepSummary s found).fieldsInProgress = e.fieldsInProgress ∧
      ((e.leave s).keepSummary s found).fields = e.fields := by
    cases found <;> exact ⟨rfl, rfl, rfl⟩
  refine ⟨hnodup, h.fields_nodup, fun t => ?_, ?_, fun t ht => ?_, ?_⟩
  · rw [hrest.1, Std.ExtTreeSet.mem_erase, h.mem_inProgress, List.mem_cons,
      Ne, Std.LawfulEqCmp.compare_eq_iff_eq]
    constructor
    · rintro ⟨hst, rfl | ht⟩
      · exact absurd rfl hst
      · exact ht
    · exact fun ht => ⟨(hne ht).symm, .inr ht⟩
  · rw [hrest.2.1]
    exact h.mem_fieldsInProgress
  · rw [getElem?_summaries_keepSummary (hne ht)]
    exact h.summaries_eq_none t (List.mem_cons_of_mem s ht)
  · rw [hrest.2.2]
    exact h.fields_eq_none

theorem enterField (h : e.InHand bodies fields) (hkey : key ∉ e.fieldsInProgress)
    (hkept : e.fields[key]? = none) : (e.enterField key).InHand bodies (key :: fields) where
  bodies_nodup := h.bodies_nodup
  fields_nodup := List.nodup_cons.mpr ⟨mt (h.mem_fieldsInProgress key).mpr hkey, h.fields_nodup⟩
  mem_inProgress := h.mem_inProgress
  mem_fieldsInProgress other := by
    rw [Engine.enterField, mem_insert_iff, h.mem_fieldsInProgress, List.mem_cons]
  summaries_eq_none := h.summaries_eq_none
  fields_eq_none := List.forall_mem_cons.mpr ⟨hkept, h.fields_eq_none⟩

theorem leaveField (h : e.InHand bodies (key :: fields)) (w : Writes) :
    ((e.leaveField key).keepWrites key w).InHand bodies fields := by
  obtain ⟨hnotMem, hnodup⟩ := List.nodup_cons.mp h.fields_nodup
  have hne {other : FieldKey} (ho : other ∈ fields) : other ≠ key := fun heq => hnotMem (heq ▸ ho)
  have hrest : ((e.leaveField key).keepWrites key w).inProgress = e.inProgress ∧
      ((e.leaveField key).keepWrites key w).fieldsInProgress = e.fieldsInProgress.erase key ∧
      ((e.leaveField key).keepWrites key w).summaries = e.summaries := by
    unfold keepWrites
    split <;> exact ⟨rfl, rfl, rfl⟩
  refine ⟨h.bodies_nodup, hnodup, ?_, fun other => ?_, ?_, fun other ho => ?_⟩
  · rw [hrest.1]
    exact h.mem_inProgress
  · rw [hrest.2.1, Std.ExtTreeSet.mem_erase, h.mem_fieldsInProgress, List.mem_cons,
      Ne, Std.LawfulEqCmp.compare_eq_iff_eq]
    constructor
    · rintro ⟨hst, rfl | ho⟩
      · exact absurd rfl hst
      · exact ho
    · exact fun ho => ⟨(hne ho).symm, .inr ho⟩
  · rw [hrest.2.2]
    exact h.summaries_eq_none
  · rw [getElem?_fields_keepWrites (hne ho)]
    exact h.fields_eq_none other (List.mem_cons_of_mem key ho)

/-- A body that is let go of had no summary before. -/
theorem keptBy_leave (h : e.InHand (s :: bodies) fields) (found : Option BodySummary) :
    e.KeptBy ((e.leave s).keepSummary s found) := by
  refine ⟨fun t summary ht => ?_, fun key set hkey => ?_⟩
  · have hne : t ≠ s := by
      rintro rfl
      rw [h.summaries_eq_none t List.mem_cons_self] at ht
      cases ht
    rw [getElem?_summaries_keepSummary hne]
    exact ht
  · cases found <;> exact hkey

theorem keptBy_leaveField (h : e.InHand bodies (key :: fields)) (w : Writes) :
    e.KeptBy ((e.leaveField key).keepWrites key w) := by
  refine ⟨fun t summary ht => ?_, fun other set hother => ?_⟩
  · unfold keepWrites
    split <;> exact ht
  · have hne : other ≠ key := by
      rintro rfl
      rw [h.fields_eq_none other List.mem_cons_self] at hother
      cases hother
    rw [getElem?_fields_keepWrites hne]
    exact hother

end InHand

/-! ### The books of the machine -/

def Frame.body? : Frame → Option Signature
  | body s => some s
  | _ => none

def Frame.field? : Frame → Option FieldKey
  | writes key _ _ => some key
  | _ => none

def Control.field? : Control → Option FieldKey
  | gather key _ _ => some key
  | _ => none

namespace Machine

def bodies (m : Machine) : List Signature := m.stack.filterMap Frame.body?

def fields (m : Machine) : List FieldKey :=
  m.control.field?.toList ++ m.stack.filterMap Frame.field?

structure Inv (m : Machine) : Prop where
  inHand : m.engine.InHand m.bodies m.fields
  depth_eq : m.depth = m.bodies.length
  depth_le : m.depth ≤ maxDepth
  stack_eq_nil : m.control = .idle → m.stack = []

theorem inv_initial (queries : List Query) : Inv (initial queries) where
  inHand := InHand.initial
  depth_eq := rfl
  depth_le := Nat.zero_le _
  stack_eq_nil _ := rfl

/-- Most steps take nothing in hand and let go of nothing. -/
theorem Inv.of_eq (h : Inv m) (hengine : m'.engine = m.engine) (hdepth : m'.depth = m.depth)
    (hbodies : m'.bodies = m.bodies) (hfields : m'.fields = m.fields)
    (hidle : m'.control = .idle → m'.stack = []) : Inv m' where
  inHand := by
    rw [hengine, hbodies, hfields]
    exact h.inHand
  depth_eq := by
    rw [hdepth, hbodies]
    exact h.depth_eq
  depth_le := by
    rw [hdepth]
    exact h.depth_le
  stack_eq_nil := hidle

theorem Inv.step (h : Inv m) (hstep : Step p m m') : Inv m' ∧ m.engine.KeptBy m'.engine := by
  have hhand := h.inHand
  have hdepth := h.depth_eq
  have hle := h.depth_le
  cases hstep with
  | @enter s hc hkept hlt hbusy =>
    have hfields : m.fields = m.stack.filterMap Frame.field? := by
      rw [fields, hc]
      rfl
    refine ⟨⟨?_, congrArg (· + 1) hdepth, hlt, nofun⟩, .of_eq rfl rfl⟩
    rw [hfields] at hhand
    exact hhand.enter hbusy hkept
  | @leave s found rest hc hs =>
    have hbodies : m.bodies = s :: rest.filterMap Frame.body? := by
      rw [bodies, hs]
      rfl
    have hfields : m.fields = rest.filterMap Frame.field? := by
      rw [fields, hc, hs]
      rfl
    rw [hbodies] at hhand hdepth
    rw [hfields] at hhand
    refine ⟨⟨hhand.leave found, ?_, (Nat.sub_le _ _).trans hle, nofun⟩, hhand.keptBy_leave found⟩
    exact congrArg (· - 1) hdepth
  | @enterField key hc hkept hbusy =>
    have hfields : m.fields = m.stack.filterMap Frame.field? := by
      rw [fields, hc]
      rfl
    refine ⟨⟨?_, hdepth, hle, nofun⟩, .of_eq rfl rfl⟩
    rw [hfields] at hhand
    exact hhand.enterField hbusy hkept
  | @leaveField key found hc =>
    have hfields : m.fields = key :: m.stack.filterMap Frame.field? := by
      rw [fields, hc]
      rfl
    rw [hfields] at hhand
    exact ⟨⟨hhand.leaveField found, hdepth, hle, nofun⟩, hhand.keptBy_leaveField found⟩
  | @ask q rest hc hq =>
    refine ⟨h.of_eq rfl rfl rfl ?_ ?_, .of_eq rfl rfl⟩
    · rw [fields, fields, hc]
      cases q <;> rfl
    · cases q <;> nofun
  | replyCallees hc hs | replySummary hc hs | replySet hc hs =>
    refine ⟨h.of_eq rfl rfl rfl ?_ fun _ => hs, .of_eq rfl rfl⟩
    rw [fields, fields, hc]
    rfl
  | walkEnds hc | walkAsks hc | askReturns hc | fieldKept hc | fieldBusy hc | lookAt hc
  | summaryKept hc | tooDeep hc | bodyBusy hc =>
    refine ⟨h.of_eq rfl rfl rfl ?_ nofun, .of_eq rfl rfl⟩
    rw [fields, fields, hc]
    rfl
  | returned hc hs | lookedAt hc hs | resume hc hs =>
    refine ⟨h.of_eq rfl rfl ?_ ?_ nofun, .of_eq rfl rfl⟩
    · rw [bodies, bodies, hs]
      rfl
    · rw [fields, fields, hc, hs]
      rfl

theorem Inv.steps (h : Inv m) (hsteps : Steps p m m') : Inv m' ∧ m.engine.KeptBy m'.engine := by
  induction hsteps with
  | refl => exact ⟨h, .of_eq rfl rfl⟩
  | tail _ hstep ih =>
    obtain ⟨hinv, hkept⟩ := ih.1.step hstep
    exact ⟨hinv, ih.2.trans hkept⟩

end Machine

end Engine

end JavaCallGraph
