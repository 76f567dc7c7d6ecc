import JavaCallGraph.Inference.Body
import JavaCallGraph.Proofs.NameSets

/-!
# What a walk reads and sets

A walk looks only at the locals that its statements name, and it touches only those that they
declare or assign. So two walks through the same statements do the same if they start with the same
locals of those names and their questions are answered alike. All else in the state can differ.
-/

namespace JavaCallGraph

/-! ### Names in statements -/

def Expr.assigned? : Expr → Option String
  | .name n => some n
  | _ => none

mutual

/-- The expression names only locals of which `reads` holds, and of those that it declares or
assigns `sets` holds too. -/
def Expr.keepsTo (reads sets : String → Bool) : Expr → Bool
  | .new _ args _ _ => Expr.allKeepTo reads sets args
  | .call receiver _ args _ =>
    Expr.allKeepTo reads sets args && Receiver.keepsTo reads sets receiver
  | .fieldAccess receiver _ => Expr.keepsTo reads sets receiver
  | .name name => reads name
  | .this _ | .super | .literal _ => true
  | .binary _ left right => Expr.keepsTo reads sets left && Expr.keepsTo reads sets right
  | .instanceOf value _ binding =>
    Expr.keepsTo reads sets value && binding.all fun name => reads name && sets name
  | .assign target value =>
    Expr.keepsTo reads sets target && target.assigned?.all sets && Expr.keepsTo reads sets value
  | .cast _ value => Expr.keepsTo reads sets value
  | .conditional condition yes no =>
    Expr.keepsTo reads sets condition && Expr.keepsTo reads sets yes &&
      Expr.keepsTo reads sets no
  | .arrayAccess array index => Expr.keepsTo reads sets array && Expr.keepsTo reads sets index
  | .arrayNew _ elements => Expr.allKeepTo reads sets elements
  | .lambda params body =>
    (params.all fun p => reads p.name && sets p.name) && Stmt.allKeepTo reads sets body
  | .switch selector body values =>
    Expr.keepsTo reads sets selector && Stmt.allKeepTo reads sets body &&
      Expr.allKeepTo reads sets values
  | .methodRef receiver _ => Expr.keepsTo reads sets receiver
  | .other parts => Expr.allKeepTo reads sets parts

def Expr.allKeepTo (reads sets : String → Bool) : List Expr → Bool
  | [] => true
  | e :: es => Expr.keepsTo reads sets e && Expr.allKeepTo reads sets es

def Receiver.keepsTo (reads sets : String → Bool) : Receiver → Bool
  | .implicit | .super | .qualifiedSuper _ => true
  | .expr e => Expr.keepsTo reads sets e

def Stmt.keepsTo (reads sets : String → Bool) : Stmt → Bool
  | .localVar name _ none => reads name && sets name
  | .localVar name _ (some init) => reads name && sets name && Expr.keepsTo reads sets init
  | .forEach name _ iterable => reads name && sets name && Expr.keepsTo reads sets iterable
  | .expr e => Expr.keepsTo reads sets e
  | .ret none => true
  | .ret (some e) => Expr.keepsTo reads sets e
  | .ctorCall _ args _ => Expr.allKeepTo reads sets args

def Stmt.allKeepTo (reads sets : String → Bool) : List Stmt → Bool
  | [] => true
  | s :: ss => Stmt.keepsTo reads sets s && Stmt.allKeepTo reads sets ss

end

/-! ### States -/

namespace WalkState

/-- All that has been found out is still there, and a local can differ only if `sets` holds of its
name. -/
structure Grows (sets : String → Bool) (s t : WalkState) : Prop where
  locals : ∀ name, sets name = false → t.locals[name]? = s.locals[name]?
  changed : s.changed → t.changed
  callees : ∀ c ∈ s.summary.callees, c ∈ t.summary.callees

structure Covers (reads : String → Bool) (s s' : WalkState) : Prop where
  locals : ∀ name, reads name → s.locals[name]? = s'.locals[name]?
  changed : s'.changed → s.changed
  callees : ∀ c ∈ s'.summary.callees, c ∈ s.summary.callees

variable {reads sets : String → Bool} {s s' t u : WalkState}

theorem Grows.refl (sets : String → Bool) (s : WalkState) : s.Grows sets s :=
  ⟨fun _ _ => rfl, id, fun _ => id⟩

theorem Grows.trans (h : s.Grows sets t) (h' : t.Grows sets u) : s.Grows sets u where
  locals name hname := (h'.locals name hname).trans (h.locals name hname)
  changed hs := h'.changed (h.changed hs)
  callees c hc := h'.callees c (h.callees c hc)

theorem Covers.refl (reads : String → Bool) (s : WalkState) : s.Covers reads s :=
  ⟨fun _ _ => rfl, id, fun _ => id⟩

/-- Growth elsewhere does not uncover a state. -/
theorem Covers.of_grows (h : s.Covers reads s') (hst : s.Grows sets t)
    (hapart : ∀ name, reads name → sets name = false) : t.Covers reads s' where
  locals name hname := (hst.locals name (hapart name hname)).trans (h.locals name hname)
  changed hs := hst.changed (h.changed hs)
  callees c hc := hst.callees c (h.callees c hc)

theorem Grows.declare {name : String} (hsets : sets name) (s : WalkState) (l : Local) :
    s.Grows sets (s.declare name l) where
  locals other hother := by
    have hne : ¬ name = other := fun heq => by simp [← heq, hsets] at hother
    simp [WalkState.declare, Std.ExtTreeMap.getElem?_insertIfNew, hne]
  changed := id
  callees _ := id

theorem Covers.declare (h : s.Covers reads s') {name : String} (hreads : reads name) (l : Local) :
    (s.declare name l).Covers reads (s'.declare name l) where
  locals other hother := by
    have hmem : name ∈ s.locals ↔ name ∈ s'.locals := by
      rw [Std.ExtTreeMap.mem_iff_isSome_getElem?, Std.ExtTreeMap.mem_iff_isSome_getElem?,
        h.locals name hreads]
    simp only [WalkState.declare, Std.ExtTreeMap.getElem?_insertIfNew, hmem, h.locals other hother]
  changed := h.changed
  callees := h.callees

theorem Grows.assign? {name : String} (hsets : sets name) {set : ConstraintSet}
    (ht : s.assign? name set = some t) : s.Grows sets t := by
  obtain ⟨l, -, rfl⟩ := Option.map_eq_some_iff.mp ht
  refine ⟨fun other hother => ?_, fun hs => by simp [hs], fun _ => id⟩
  have hne : ¬ name = other := fun heq => by simp [← heq, hsets] at hother
  simp [Std.ExtTreeMap.getElem?_insert, hne]

/-- An assignment finds the same local in both states, and changes it alike. -/
theorem Covers.assign? (h : s.Covers reads s') {name : String} (hreads : reads name)
    (set : ConstraintSet) :
    (s.assign? name set = none ∧ s'.assign? name set = none) ∨
      ∃ t t', s.assign? name set = some t ∧ s'.assign? name set = some t' ∧ t.Covers reads t' := by
  unfold WalkState.assign?
  rw [h.locals name hreads]
  cases s'.locals[name]? with
  | none => exact .inl ⟨rfl, rfl⟩
  | some l =>
    refine .inr ⟨_, _, rfl, rfl, fun other hother => ?_, fun hs => ?_, h.callees⟩
    · simp only [Std.ExtTreeMap.getElem?_insert, h.locals other hother]
    · simp only [Bool.or_eq_true] at hs ⊢
      exact hs.imp_left (Or.imp_left h.changed)

theorem Grows.assign {name : String} (hsets : sets name) (s : WalkState) (set : ConstraintSet) :
    s.Grows sets (s.assign name set) := by
  unfold WalkState.assign
  cases ht : s.assign? name set with
  | none => exact .refl sets s
  | some t => exact .assign? hsets ht

theorem Covers.assign (h : s.Covers reads s') {name : String} (hreads : reads name)
    (set : ConstraintSet) : (s.assign name set).Covers reads (s'.assign name set) := by
  unfold WalkState.assign
  obtain ⟨hs, hs'⟩ | ⟨t, t', ht, ht', hcovers⟩ := h.assign? hreads set
  · rw [hs, hs']
    exact h
  · rw [ht, ht']
    exact hcovers

theorem Grows.record (sets : String → Bool) (s : WalkState) (found : List Resolution) :
    s.Grows sets (s.record found) where
  locals _ _ := rfl
  changed := id
  callees _ hc := Std.ExtTreeSet.mem_insertMany_list.mpr (.inl hc)

theorem Covers.record (h : s.Covers reads s') (found : List Resolution) :
    (s.record found).Covers reads (s'.record found) where
  locals := h.locals
  changed := h.changed
  callees c hc := by
    rcases Std.ExtTreeSet.mem_insertMany_list.mp hc with hc | hc
    · exact Std.ExtTreeSet.mem_insertMany_list.mpr (.inl (h.callees c hc))
    · exact Std.ExtTreeSet.mem_insertMany_list.mpr (.inr hc)

theorem Covers.widen (h : s.Covers reads s') : s.widen.Covers reads s'.widen where
  locals name hname := by
    simp only [WalkState.widen, Std.ExtTreeMap.getElem?_map, h.locals name hname]
  changed := h.changed
  callees := h.callees

end WalkState

/-! ### Walks -/

theorem Script.run_bind {α β : Type} (answers : Question → Option (Option ConstraintSet))
    (x : Script α) (f : α → Script β) :
    (x >>= f).run answers = (x.run answers).bind fun a => (f a).run answers := by
  induction x with
  | done a => rfl
  | ask q next ih =>
    change (answers q >>= fun answer => ((next answer).bind f).run answers) =
      (answers q >>= fun answer => (next answer).run answers).bind _
    rw [Option.bind_eq_bind, Option.bind_eq_bind, Option.bind_assoc]
    exact congrArg _ (funext ih)

namespace Walk

variable {α β : Type} {answers : Question → Option (Option ConstraintSet)}
  {reads sets : String → Bool}

def ends (answers : Question → Option (Option ConstraintSet)) (x : Walk α) (s : WalkState) :
    Option (α × WalkState) :=
  (x.run s).run answers

theorem ends_bind (x : Walk α) (f : α → Walk β) (s : WalkState) :
    ends answers (x >>= f) s = (ends answers x s).bind fun r => ends answers (f r.1) r.2 :=
  Script.run_bind answers (x.run s) _

/-- The walk sets only locals of which `sets` holds. What it does depends only on the locals of
which `reads` holds, and on the answers. -/
def Framed (reads sets : String → Bool) (x : Walk α) : Prop :=
  ∀ (answers : Question → Option (Option ConstraintSet)) (s s' : WalkState), s.Covers reads s' →
    ∀ a t, ends answers x s = some (a, t) →
      s.Grows sets t ∧ ∃ t', ends answers x s' = some (a, t') ∧ t.Covers reads t'

namespace Framed

theorem pure (a : α) : Framed reads sets (Pure.pure a : Walk α) := by
  intro answers s s' hs b t ht
  cases ht
  exact ⟨.refl sets s, s', rfl, hs⟩

theorem bind {x : Walk α} {f : α → Walk β} (hx : Framed reads sets x)
    (hf : ∀ a, Framed reads sets (f a)) : Framed reads sets (x >>= f) := by
  intro answers s s' hs b u hu
  rw [ends_bind, Option.bind_eq_some_iff] at hu
  obtain ⟨⟨a, t⟩, ht, hu⟩ := hu
  obtain ⟨hst, t', ht', hcovers⟩ := hx answers s s' hs a t ht
  obtain ⟨htu, u', hu', hcovers⟩ := hf a answers t t' hcovers b u hu
  refine ⟨hst.trans htu, u', ?_, hcovers⟩
  rw [ends_bind, ht']
  exact hu'

theorem discard {x : Walk α} (hx : Framed reads sets x) : Framed reads sets (discard x) :=
  hx.bind fun _ => pure _

theorem modify {f : WalkState → WalkState} (hgrows : ∀ s : WalkState, s.Grows sets (f s))
    (hcovers : ∀ s s' : WalkState, s.Covers reads s' → (f s).Covers reads (f s')) :
    Framed reads sets (modify f : Walk Unit) := by
  intro answers s s' hs a t ht
  cases ht
  exact ⟨hgrows s, f s', rfl, hcovers s s' hs⟩

theorem question (q : Question) : Framed reads sets (Script.question q : Walk _) := by
  intro answers s s' hs a t ht
  have hends (state : WalkState) : ends answers (Script.question q : Walk _) state =
      (answers q).map fun answer => (answer, state) := by
    change (answers q >>= fun answer => some (answer, state)) = _
    rw [Option.bind_eq_bind, Option.map_eq_bind]
    rfl
  rw [hends, Option.map_eq_some_iff] at ht
  obtain ⟨answer, hanswer, heq⟩ := ht
  cases heq
  refine ⟨.refl sets s, s', ?_, hs⟩
  rw [hends, hanswer]
  rfl

theorem foldlM {f : β → α → Walk β} (hf : ∀ b a, Framed reads sets (f b a)) (b : β) (l : List α) :
    Framed reads sets (l.foldlM f b) := by
  induction l generalizing b with
  | nil => exact pure b
  | cons a l ih => exact (hf b a).bind fun b => ih b

/-- What is looked up in the state is the same in both states. -/
theorem get_bind {f : WalkState → Walk α}
    (heq : ∀ s s' : WalkState, s.Covers reads s' → f s = f s')
    (hf : ∀ s, Framed reads sets (f s)) : Framed reads sets (MonadState.get >>= f) := by
  intro answers s s' hs a t ht
  obtain ⟨hgrows, t', ht', hcovers⟩ := hf s answers s s' hs a t ht
  rw [heq s s' hs] at ht'
  exact ⟨hgrows, t', ht', hcovers⟩

end Framed

end Walk

/-! ### Names and calls -/

namespace BodyContext

open Walk

variable (ctx : BodyContext) {reads sets : String → Bool}

theorem framed_fieldValue (field : Field) (receiver : Option StaticType) :
    Framed reads sets (ctx.fieldValue field receiver) := by
  refine (Framed.question _).bind fun answer => ?_
  split
  · exact .pure _
  · exact .pure _

theorem framed_nameValue {name : String} (hname : reads name) :
    Framed reads sets (ctx.nameValue name) := by
  refine Framed.get_bind (fun s s' hs => ?_) fun s => ?_
  · rw [hs.locals name hname]
  · split
    · exact .pure _
    · split
      · exact ctx.framed_fieldValue _ _
      · split
        · exact .pure _
        · exact .pure _

theorem framed_superFieldValue (name : String) :
    Framed reads sets (ctx.superFieldValue name) := by
  unfold superFieldValue
  split
  · exact .pure _
  · split
    · exact ctx.framed_fieldValue _ _
    · exact .pure _

theorem framed_memberValue (receiver : Value) (name : String) :
    Framed reads sets (ctx.memberValue receiver name) := by
  unfold memberValue
  cases receiver.kind with
  | package package =>
    dsimp only
    split
    · exact .pure _
    · exact .pure _
  | type type =>
    dsimp only
    split
    · exact ctx.framed_fieldValue _ _
    · exact .pure _
  | object =>
    dsimp only
    split
    · exact .pure _
    · split
      · exact ctx.framed_fieldValue _ _
      · exact .pure _

theorem framed_record (found : List Resolution) :
    Framed reads sets (modify (·.record found) : Walk Unit) :=
  .modify (fun s => .record sets s found) fun _ _ hs => hs.record found

theorem framed_resolve (name : String) (receiver : SiteReceiver) (args : List Value) :
    Framed reads sets (ctx.resolve name receiver args) :=
  (framed_record _).bind fun _ => .pure _

theorem framed_callConstructor (type : String) (args : List Value) :
    Framed reads sets (ctx.callConstructor type args) := (ctx.framed_resolve _ _ _).discard

theorem framed_returned (found : List Resolution) : Framed reads sets (ctx.returned found) := by
  refine (Framed.foldlM (fun acc r => ?_) none found).bind fun _ => .pure _
  unfold addReturned
  dsimp only
  split
  · exact .pure _
  · refine (Framed.question _).bind fun answer => ?_
    cases acc with
    | none => exact .pure _
    | some v => exact .pure _

theorem framed_callOn (name : String) (args : List Value) (acc : Option Value)
    (receiver : SiteReceiver) : Framed reads sets (ctx.callOn name args acc receiver) :=
  (ctx.framed_resolve _ _ _).bind fun found => (ctx.framed_returned found).bind fun _ => .pure _

theorem framed_methodReference (v : Value) (name : String) :
    Framed reads sets (ctx.methodReference v name) := by
  unfold methodReference
  split
  · exact framed_record _
  · exact .pure _

/-! ### Assignments and declarations -/

theorem framed_writeTo (field? : Option Field) (v : Value) :
    Framed reads sets (writeTo field? v) := by
  cases field? with
  | none => exact .pure _
  | some field =>
    exact .modify (fun _ => ⟨fun _ _ => rfl, id, fun _ => id⟩)
      fun _ _ hs => ⟨hs.locals, hs.changed, hs.callees⟩

theorem ends_assignName_of_none {answers : Question → Option (Option ConstraintSet)}
    {name : String} {v : Value} {s : WalkState} (h : s.assign? name v.set = none) :
    ends answers (ctx.assignName name v) s =
      ends answers (writeTo (ctx.implicitField? name) v) s := by
  have hget : ends answers MonadState.get s = some (s, s) := rfl
  rw [assignName, ends_bind, hget, Option.bind_some, h]

theorem ends_assignName_of_some {answers : Question → Option (Option ConstraintSet)}
    {name : String} {v : Value} {s t : WalkState} (h : s.assign? name v.set = some t) :
    ends answers (ctx.assignName name v) s = some ((), t) := by
  have hget : ends answers MonadState.get s = some (s, s) := rfl
  rw [assignName, ends_bind, hget, Option.bind_some, h]
  rfl

theorem framed_assignName {name : String} (hreads : reads name) (hsets : sets name) (v : Value) :
    Framed reads sets (ctx.assignName name v) := by
  intro answers s s' hs a t ht
  -- The name must be one that is read: where one state lacks the local, a field is written instead.
  obtain ⟨hnone, hnone'⟩ | ⟨u, u', hu, hu', hcovers⟩ := hs.assign? hreads v.set
  · rw [ctx.ends_assignName_of_none hnone] at ht
    rw [ctx.ends_assignName_of_none hnone']
    exact framed_writeTo _ v answers s s' hs a t ht
  · rw [ctx.ends_assignName_of_some hu] at ht
    rw [ctx.ends_assignName_of_some hu']
    cases ht
    exact ⟨.assign? hsets hu, u', rfl, hcovers⟩

theorem framed_declare {name : String} (hreads : reads name) (hsets : sets name) (l : Local) :
    Framed reads sets (modify (·.declare name l) : Walk Unit) :=
  .modify (fun s => .declare hsets s l) fun _ _ hs => hs.declare hreads l

theorem framed_declare_assign {name : String} (hreads : reads name) (hsets : sets name)
    (type : Option StaticType) (set : ConstraintSet) :
    Framed reads sets (modify fun s => (s.declareLocal name type).assign name set : Walk Unit) :=
  .modify (fun s => (WalkState.Grows.declare hsets s _).trans (.assign hsets _ set))
    fun _ _ hs => (hs.declare hreads _).assign hreads set

theorem framed_declareParams {params : List Param}
    (h : ∀ p ∈ params, reads p.name ∧ sets p.name) :
    Framed reads sets (modify (ctx.declareParams · params) : Walk Unit) := by
  refine .modify (fun s => ?_) fun s s' hs => ?_
  · unfold declareParams
    induction params generalizing s with
    | nil => exact .refl sets s
    | cons p params ih =>
      exact (WalkState.Grows.declare (h p (by simp)).2 s _).trans
        (ih (fun q hq => h q (by simp [hq])) _)
  · unfold declareParams
    induction params generalizing s s' with
    | nil => exact hs
    | cons p params ih =>
      exact ih (fun q hq => h q (by simp [hq])) _ _ (hs.declare (h p (by simp)).1 _)

/-! ### Statements and expressions -/

mutual

theorem framed_expr (ctx : BodyContext) :
    (e : Expr) → e.keepsTo reads sets → Framed reads sets (ctx.expr e)
  | .new type args bodyType line, h => by
    rw [Expr.keepsTo] at h
    rw [expr]
    refine (framed_exprs ctx args h).bind fun args => ?_
    dsimp only
    split
    · exact .pure _
    · exact (ctx.framed_callConstructor _ _).bind fun _ => .pure _
  | .call receiver name args line, h => by
    rw [Expr.keepsTo, Bool.and_eq_true] at h
    rw [expr]
    refine (framed_exprs ctx args h.1).bind fun args => ?_
    refine (framed_siteReceivers ctx name receiver h.2).bind fun receivers => ?_
    exact (Framed.foldlM (ctx.framed_callOn name args) _ _).bind fun _ => .pure _
  | .fieldAccess receiver name, h => by
    rw [Expr.keepsTo] at h
    have hreceiver := framed_expr ctx receiver h
    rw [expr.eq_def]
    dsimp only
    split
    · exact ctx.framed_superFieldValue name
    · exact hreceiver.bind fun _ => ctx.framed_memberValue _ _
  | .name name, h => by
    rw [Expr.keepsTo] at h
    rw [expr]
    exact ctx.framed_nameValue h
  | .this none, _ => by
    rw [expr]
    exact .pure _
  | .this (some qualifier), _ => by
    rw [expr]
    split
    · exact .pure _
    · exact .pure _
  | .super, _ => by
    rw [expr]
    split
    · exact .pure _
    · exact .pure _
  | .literal l, _ => by
    rw [expr]
    exact .pure _
  | .binary op left right, h => by
    rw [Expr.keepsTo, Bool.and_eq_true] at h
    rw [expr]
    refine (framed_expr ctx left h.1).bind fun _ => ?_
    exact (framed_expr ctx right h.2).bind fun _ => .pure _
  | .instanceOf value type binding, h => by
    rw [Expr.keepsTo, Bool.and_eq_true] at h
    rw [expr]
    refine (framed_expr ctx value h.1).bind fun v => ?_
    cases binding with
    | none => exact .pure _
    | some name =>
      have hname : reads name ∧ sets name := by simpa using h.2
      exact (framed_declare_assign hname.1 hname.2 _ _).bind fun _ => .pure _
  | .assign target value, h => by
    rw [Expr.keepsTo, Bool.and_eq_true, Bool.and_eq_true] at h
    obtain ⟨⟨htarget, hsets⟩, hvalue⟩ := h
    have hevaluate := framed_expr ctx target htarget
    rw [expr.eq_def]
    dsimp only
    refine (framed_expr ctx value hvalue).bind fun v => ?_
    split
    · rw [Expr.keepsTo] at htarget
      exact (ctx.framed_assignName htarget (by simpa [Expr.assigned?] using hsets) v).bind
        fun _ => .pure _
    · exact (framed_writeTo _ v).bind fun _ => .pure _
    · rw [Expr.keepsTo] at htarget
      refine (framed_expr ctx _ htarget).bind fun r => ?_
      exact (framed_writeTo _ v).bind fun _ => .pure _
    · exact hevaluate.discard.bind fun _ => .pure _
  | .cast type value, h => by
    rw [Expr.keepsTo] at h
    rw [expr]
    exact (framed_expr ctx value h).bind fun _ => .pure _
  | .conditional condition yes no, h => by
    rw [Expr.keepsTo, Bool.and_eq_true, Bool.and_eq_true] at h
    obtain ⟨⟨hcondition, hyes⟩, hno⟩ := h
    rw [expr]
    refine (framed_expr ctx condition hcondition).discard.bind fun _ => ?_
    exact (framed_expr ctx yes hyes).bind fun _ => (framed_expr ctx no hno).bind fun _ => .pure _
  | .arrayAccess array index, h => by
    rw [Expr.keepsTo, Bool.and_eq_true] at h
    rw [expr]
    refine (framed_expr ctx array h.1).bind fun v => ?_
    refine (framed_expr ctx index h.2).discard.bind fun _ => ?_
    split
    · exact .pure _
    · exact .pure _
  | .arrayNew type elements, h => by
    rw [Expr.keepsTo] at h
    rw [expr]
    exact (framed_exprs ctx elements h).discard.bind fun _ => .pure _
  | .lambda params body, h => by
    rw [Expr.keepsTo, Bool.and_eq_true] at h
    have hparams : ∀ p ∈ params, reads p.name ∧ sets p.name := by simpa using h.1
    rw [expr]
    refine (ctx.framed_declareParams hparams).bind fun _ => ?_
    exact (framed_stmts { ctx with inLambda := true } body h.2).bind fun _ => .pure _
  | .switch selector body values, h => by
    rw [Expr.keepsTo, Bool.and_eq_true, Bool.and_eq_true] at h
    obtain ⟨⟨hselector, hbody⟩, hvalues⟩ := h
    rw [expr]
    refine (framed_expr ctx selector hselector).discard.bind fun _ => ?_
    refine (framed_stmts ctx body hbody).bind fun _ => ?_
    exact (framed_exprs ctx values hvalues).bind fun _ => .pure _
  | .methodRef receiver name, h => by
    rw [Expr.keepsTo] at h
    rw [expr]
    refine (framed_expr ctx receiver h).bind fun v => ?_
    exact (ctx.framed_methodReference v name).bind fun _ => .pure _
  | .other parts, h => by
    rw [Expr.keepsTo] at h
    rw [expr]
    exact (framed_exprs ctx parts h).discard.bind fun _ => .pure _
termination_by e => sizeOf e

theorem framed_exprs (ctx : BodyContext) :
    (es : List Expr) → Expr.allKeepTo reads sets es → Framed reads sets (ctx.exprs es)
  | [], _ => by
    rw [exprs]
    exact .pure _
  | e :: es, h => by
    rw [Expr.allKeepTo, Bool.and_eq_true] at h
    rw [exprs]
    exact (framed_expr ctx e h.1).bind fun _ => (framed_exprs ctx es h.2).bind fun _ => .pure _
termination_by es => sizeOf es

theorem framed_siteReceivers (ctx : BodyContext) (name : String) :
    (r : Receiver) → r.keepsTo reads sets → Framed reads sets (ctx.siteReceivers name r)
  | .implicit, _ => by
    rw [siteReceivers]
    exact .pure _
  | .super, _ => by
    rw [siteReceivers]
    exact .pure _
  | .qualifiedSuper qualifier, _ => by
    rw [siteReceivers]
    exact .pure _
  | .expr e, h => by
    rw [Receiver.keepsTo] at h
    rw [siteReceivers]
    exact (framed_expr ctx e h).bind fun _ => .pure _
termination_by r => sizeOf r

theorem framed_stmt (ctx : BodyContext) :
    (s : Stmt) → s.keepsTo reads sets → Framed reads sets (ctx.stmt s)
  | .localVar name type none, h => by
    rw [Stmt.keepsTo, Bool.and_eq_true] at h
    rw [stmt]
    exact framed_declare h.1 h.2 _
  | .localVar name type (some init), h => by
    rw [Stmt.keepsTo, Bool.and_eq_true, Bool.and_eq_true] at h
    obtain ⟨⟨hreads, hsets⟩, hinit⟩ := h
    rw [stmt]
    exact (framed_expr ctx init hinit).bind fun v => framed_declare_assign hreads hsets _ _
  | .forEach name type iterable, h => by
    rw [Stmt.keepsTo, Bool.and_eq_true, Bool.and_eq_true] at h
    obtain ⟨⟨hreads, hsets⟩, hiterable⟩ := h
    rw [stmt]
    exact (framed_expr ctx iterable hiterable).bind fun v => framed_declare_assign hreads hsets _ _
  | .expr e, h => by
    rw [Stmt.keepsTo] at h
    rw [stmt]
    exact (framed_expr ctx e h).discard
  | .ret none, _ => by
    rw [stmt]
    exact .pure _
  | .ret (some e), h => by
    rw [Stmt.keepsTo] at h
    rw [stmt]
    refine (framed_expr ctx e h).bind fun v => ?_
    split
    · exact .pure _
    · exact .modify (fun _ => ⟨fun _ _ => rfl, id, fun _ => id⟩)
        fun _ _ hs => ⟨hs.locals, hs.changed, hs.callees⟩
  | .ctorCall target args line, h => by
    rw [Stmt.keepsTo] at h
    rw [stmt]
    refine (framed_exprs ctx args h).bind fun args => ?_
    cases target with
    | this => exact ctx.framed_callConstructor _ _
    | super =>
      dsimp only
      split
      · exact ctx.framed_callConstructor _ _
      · exact .pure _
termination_by s => sizeOf s

theorem framed_stmts (ctx : BodyContext) :
    (ss : List Stmt) → Stmt.allKeepTo reads sets ss → Framed reads sets (ctx.stmts ss)
  | [], _ => by
    rw [stmts]
    exact .pure _
  | s :: ss, h => by
    rw [Stmt.allKeepTo, Bool.and_eq_true] at h
    rw [stmts]
    exact (framed_stmt ctx s h.1).bind fun _ => framed_stmts ctx ss h.2
termination_by ss => sizeOf ss

end

end BodyContext

end JavaCallGraph
