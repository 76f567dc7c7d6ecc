import JavaCallGraph.Proofs.DirectCalls

/-!
# Bodies with direct calls

Three walks through a body whose calls are all made on locals or on fixed values, and with steady
arguments, move together. What the values of an expression have in common is what its grade says.
-/

namespace JavaCallGraph

namespace Comparison

open Walk

variable {K : Comparison} {α β : Type} {rel : α → α → α → Prop} {x y z x' y' z' : Walk α}

def Introduces (K : Comparison) (events : List NameEvent) : Prop :=
  ∀ name, .introduce name ∈ events → (K.types name).isSome

theorem Introduces.left {events rest : List NameEvent} (h : K.Introduces (events ++ rest)) :
    K.Introduces events := fun name hname => h name (List.mem_append_left _ hname)

theorem Introduces.right {events rest : List NameEvent} (h : K.Introduces (events ++ rest)) :
    K.Introduces rest := fun name hname => h name (List.mem_append_right _ hname)

def Agrees (g : Grade) (v w u : Value) : Prop := g.Agree v w ∧ g.Agree v u

theorem Agrees.of_eq {g : Grade} {v w u : Value} (h : w = v ∧ u = v) : Agrees g v w u :=
  ⟨.of_eq h.1, .of_eq h.2⟩

theorem agrees_loose (v w u : Value) : Agrees .loose v w u :=
  ⟨Grade.agree_loose v w, Grade.agree_loose v u⟩

namespace Tracks

theorem fixed {g : Grade} {x y z : Walk Value} (h : K.Tracks (fun v w u => w = v ∧ u = v) x y z) :
    K.Tracks (Agrees g) x y z := h.mono fun _ _ _ => .of_eq

theorem loose {rel : Value → Value → Value → Prop} {x y z : Walk Value} (h : K.Tracks rel x y z) :
    K.Tracks (Agrees .loose) x y z := h.mono fun v w u _ => agrees_loose v w u

theorem congr_ends (h : K.Tracks rel x y z) (hx : ∀ answers s, ends answers x' s = ends answers x s)
    (hy : ∀ answers s, ends answers y' s = ends answers y s)
    (hz : ∀ answers s, ends answers z' s = ends answers z s) : K.Tracks rel x' y' z' := by
  intro s₁ s₂ s₃ t₁ t₂ t₃ a b c hs₁ hs₂ hs₃ hx' hy' hz'
  rw [hx] at hx'
  rw [hy] at hy'
  rw [hz] at hz'
  exact h s₁ s₂ s₃ t₁ t₂ t₃ a b c hs₁ hs₂ hs₃ hx' hy' hz'

end Tracks

end Comparison

namespace BodyContext

open Walk Comparison

variable (ctx : BodyContext) {K : Comparison} {α β γ : Type}

theorem ends_bind_assoc {answers : Question → Option (Option ConstraintSet)} (x : Walk α)
    (f : α → Walk β) (g : β → Walk γ) (s : WalkState) :
    ends answers (x >>= fun a => f a >>= g) s = ends answers (x >>= f >>= g) s := by
  rw [ends_bind, ends_bind, ends_bind, Option.bind_assoc]
  simp only [ends_bind]

/-! ### Steps -/

theorem tracks_memberValue (v w u : Value) (name : String) :
    K.Tracks (fun _ _ _ => True) (ctx.memberValue v name) (ctx.memberValue w name)
      (ctx.memberValue u name) :=
  .silent (ctx.composed_memberValue v name) (ctx.composed_memberValue w name)
    (ctx.composed_memberValue u name) (by simp)
    fun answers s t a h => by rw [ctx.still_memberValue w name answers s t a h]

theorem callees_writeTo {answers : Question → Option (Option ConstraintSet)} {field? : Option Field}
    {v : Value} {s t : WalkState} {a : Unit} (h : ends answers (writeTo field? v) s = some (a, t)) :
    t.summary.callees = s.summary.callees := by
  cases field? with
  | none =>
    cases h
    rfl
  | some field =>
    cases h
    rfl

theorem tracks_writeTo (field₁ field₂ field₃ : Option Field) (v w u : Value) :
    K.Tracks (fun _ _ _ => True) (writeTo field₁ v) (writeTo field₂ w) (writeTo field₃ u) :=
  .silent (composed_writeTo field₁ v) (composed_writeTo field₂ w) (composed_writeTo field₃ u)
    (by simp) fun _ _ _ _ => callees_writeTo

theorem tracks_assignName (name : String) (v w u : Value) :
    K.Tracks (fun _ _ _ => True) (ctx.assignName name v) (ctx.assignName name w)
      (ctx.assignName name u) := by
  refine .silent (.assignName ctx name v) (.assignName ctx name w) (.assignName ctx name u)
    (by simp) fun answers s t a h => ?_
  cases hassign : s.assign? name w.set with
  | none =>
    rw [ctx.ends_assignName_of_none hassign] at h
    exact callees_writeTo h
  | some m =>
    rw [ctx.ends_assignName_of_some hassign] at h
    cases h
    rw [WalkState.summary_of_assign? hassign]

theorem tracks_declare {name : String} (hname : (K.types name).isSome) (l : Local) :
    K.Tracks (fun _ _ _ => True) (modify (·.declare name l) : Walk Unit)
      (modify (·.declare name l)) (modify (·.declare name l)) := by
  refine .silent (.declare name l) (.declare name l) (.declare name l) (by simpa using hname) ?_
  intro answers s t a h
  cases h
  rfl

theorem tracks_declareAssign {name : String} (hname : (K.types name).isSome)
    (type₁ type₂ type₃ : Option StaticType) (set₁ set₂ set₃ : ConstraintSet) :
    K.Tracks (fun _ _ _ => True)
      (modify fun s => (s.declareLocal name type₁).assign name set₁ : Walk Unit)
      (modify fun s => (s.declareLocal name type₂).assign name set₂)
      (modify fun s => (s.declareLocal name type₃).assign name set₃) := by
  refine .silent (.declareAssign name type₁ set₁) (.declareAssign name type₂ set₂)
    (.declareAssign name type₃ set₃) (by simpa using hname) ?_
  intro answers s t a h
  cases h
  rw [WalkState.summary_assign]
  rfl

theorem tracks_declareParams {params : List Param}
    (hparams : K.Introduces (params.map (.introduce ·.name))) :
    K.Tracks (fun _ _ _ => True) (modify (ctx.declareParams · params) : Walk Unit)
      (modify (ctx.declareParams · params)) (modify (ctx.declareParams · params)) := by
  have hparams' := ctx.composed_declareParams params
  refine .silent hparams' hparams' hparams' hparams fun answers s t a h => ?_
  cases h
  rw [summary_declareParams]

theorem tracks_addReturn (v w u : Value) :
    K.Tracks (fun _ _ _ => True) (modify (·.addReturn v) : Walk Unit) (modify (·.addReturn w))
      (modify (·.addReturn u)) := by
  refine .silent (.note (BodySummary.adds_addReturn _)) (.note (BodySummary.adds_addReturn _))
    (.note (BodySummary.adds_addReturn _)) (by simp) fun answers s t a h => ?_
  cases h
  rfl

theorem tracks_local {name : String} (hname : (K.types name).isSome) :
    K.Tracks (fun v w u => (v.kind = .object ∧ w.kind = .object ∧ u.kind = .object) ∧
        v.type = (K.types name).join ∧ w.type = v.type ∧ u.type = v.type)
      (ctx.expr (.name name)) (ctx.expr (.name name)) (ctx.expr (.name name)) := by
  intro s₁ s₂ s₃ t₁ t₂ t₃ a b c hs₁ hs₂ hs₃ hx hy hz
  obtain ⟨l₁, hl₁, htype₁⟩ := hs₁.exists_local hname
  obtain ⟨l₂, hl₂, htype₂⟩ := hs₂.exists_local hname
  obtain ⟨l₃, hl₃, htype₃⟩ := hs₃.exists_local hname
  rw [ctx.ends_name_of_some hl₁] at hx
  rw [ctx.ends_name_of_some hl₂] at hy
  rw [ctx.ends_name_of_some hl₃] at hz
  cases hx
  cases hy
  cases hz
  refine ⟨?_, hs₁, hs₂, hs₃, .refl _, .refl _, fun _ _ => .inl⟩
  simp only [kind_localValue, type_localValue, true_and]
  refine ⟨by rw [htype₁]; rfl, ?_, ?_⟩
  · exact Option.some.inj (htype₂.symm.trans htype₁)
  · exact Option.some.inj (htype₃.symm.trans htype₁)

theorem tracks_otherName {name : String} (hname : K.types name = none) :
    K.Tracks (fun v w u => w = v ∧ u = v) (ctx.expr (.name name)) (ctx.expr (.name name))
      (ctx.expr (.name name)) := by
  rw [expr, nameValue]
  refine .get_bind fun s₁ s₂ s₃ hs₁ hs₂ hs₃ => ?_
  rw [hs₁.getElem?_eq_none hname, hs₂.getElem?_eq_none hname, hs₃.getElem?_eq_none hname]
  refine .same ?_
  dsimp only
  split
  · exact ctx.composed_fieldValue _ _
  · split
    · exact .pure _
    · exact .pure _

theorem memberValue_congr {v w : Value} (hv : v.kind = .object) (hw : w.kind = .object)
    (htype : w.type = v.type) (hclass : (v.type >>= StaticType.referenceName?).isSome)
    (name : String) : ctx.memberValue w name = ctx.memberValue v name := by
  obtain ⟨type, hclass⟩ := Option.isSome_iff_exists.mp hclass
  have hfield : ctx.memberField? w name = ctx.memberField? v name := by
    simp only [memberField?, hv, hw, htype, hclass]
  rw [memberValue, memberValue, hv, hw, htype, hfield]

theorem ends_siteReceivers_bind {answers : Question → Option (Option ConstraintSet)}
    (name : String) (e : Expr) (f : List SiteReceiver → Walk α) (s : WalkState) :
    ends answers (ctx.siteReceivers name (.expr e) >>= f) s =
      ends answers (ctx.expr e >>= fun v => f (valueReceivers v)) s := by
  rw [siteReceivers, ← ends_bind_assoc]
  rfl

end BodyContext

theorem Value.binary_congr {op : String} {v w v' w' : Value} (h : w.type = v.type)
    (h' : w'.type = v'.type) : Value.binary op w w' = Value.binary op v v' := by
  have hstring : w.isString = v.isString := by rw [isString, isString, h]
  have hstring' : w'.isString = v'.isString := by rw [isString, isString, h']
  have hprimitive : w.primitive? = v.primitive? := by rw [primitive?, primitive?, h]
  have hprimitive' : w'.primitive? = v'.primitive? := by rw [primitive?, primitive?, h']
  rw [binary, binary, hstring, hstring', hprimitive, hprimitive']

namespace Expr

variable {types : LocalTypes} {e : Expr}

theorem eq_name_of_assigned? {name : String} (h : e.assigned? = some name) : e = .name name := by
  cases e <;> simp_all [assigned?]

/-- A call that can be compared although its receiver is not fixed is made on a local. -/
theorem exists_local_of_isHandle (h : e.isHandle types) (hfixed : ¬ (e.grade types).isFixed) :
    ∃ name, e = .name name ∧ (types name).isSome := by
  rw [isHandle, Bool.or_eq_true, Option.any_eq_true] at h
  obtain ⟨name, hname, hlocal⟩ := h.resolve_left hfixed
  exact ⟨name, eq_name_of_assigned? hname, hlocal⟩

end Expr

/-! ### Syntax -/

namespace BodyContext

open Walk Comparison

variable {K : Comparison}

mutual

/-- The three values of an expression agree as far as its grade says. -/
theorem tracks_expr (ctx : BodyContext) (hprogram : ctx.program = K.program) :
    (e : Expr) → e.direct K.types → K.Introduces e.events →
      K.Tracks (Agrees (e.grade K.types)) (ctx.expr e) (ctx.expr e) (ctx.expr e)
  | .new type args bodyType line, h, hi => by
    rw [Expr.direct, Bool.and_eq_true] at h
    rw [Expr.events] at hi
    rw [expr]
    refine (tracks_exprs ctx hprogram args h.1 hi).bind fun vs ws us hargs => ?_
    obtain ⟨hws, hus⟩ := hargs h.2
    dsimp only
    cases bodyType.or (ctx.bind type).referenceName? with
    | none => exact .pure (.of_eq ⟨rfl, rfl⟩)
    | some target =>
      dsimp only
      rw [ctx.callConstructor_congr hws, ctx.callConstructor_congr hus]
      exact (Tracks.same ((ctx.composed_callConstructor _ _).before fun _ => .pure _)).fixed
  | .call receiver name args line, h, hi => by
    rw [Expr.direct, Bool.and_eq_true, Bool.and_eq_true] at h
    obtain ⟨⟨hargs, hsteady⟩, hreceiver⟩ := h
    rw [Expr.events] at hi
    rw [expr, Expr.grade]
    refine (tracks_exprs ctx hprogram args hargs hi.left).bind fun vs ws us hvalues => ?_
    obtain ⟨hws, hus⟩ := hvalues hsteady
    by_cases hfixed : receiver.isFixed K.types
    · refine (tracks_siteReceivers ctx hprogram name receiver hreceiver hfixed hi.right).bind
        fun rs rs' rs'' hrs => ?_
      rw [hrs.1, hrs.2, ctx.callOn_congr hws, ctx.callOn_congr hus]
      refine (Tracks.same ?_).fixed
      exact (Composed.foldlM (ctx.composed_callOn name vs) _ _).before fun _ => .pure _
    · -- Receivers that are not fixed are locals, and those find more in the third walk.
      rw [if_neg (by simp [hfixed])]
      cases receiver with
      | implicit => exact absurd rfl hfixed
      | super => exact absurd rfl hfixed
      | qualifiedSuper qualifier => exact absurd rfl hfixed
      | expr e =>
        rw [Receiver.direct, Bool.and_eq_true] at hreceiver
        rw [Receiver.isFixed] at hfixed
        obtain ⟨name', rfl, hlocal⟩ := Expr.exists_local_of_isHandle hreceiver.2 hfixed
        refine (Tracks.congr_ends (tracks_callOnLocal hprogram hlocal name hws hus)
          (fun answers s => ?_) (fun answers s => ?_) fun answers s => ?_).loose
        · exact ctx.ends_siteReceivers_bind name _ _ s
        · exact ctx.ends_siteReceivers_bind name _ _ s
        · exact ctx.ends_siteReceivers_bind name _ _ s
  | .fieldAccess receiver name, h, hi => by
    rw [Expr.direct] at h
    rw [Expr.events] at hi
    have hreceiver := tracks_expr ctx hprogram receiver h hi
    rw [expr.eq_def]
    dsimp only
    split
    · exact (Tracks.same (ctx.composed_superFieldValue name)).fixed
    · rw [Expr.grade]
      by_cases hfixed : (receiver.grade K.types).isFixed
      · refine hreceiver.bind fun v w u hv => ?_
        rw [hv.1.eq hfixed, hv.2.eq hfixed]
        exact (Tracks.same (ctx.composed_memberValue v name)).fixed
      · by_cases hlocal : receiver.assigned?.any fun name =>
            ((K.types name).join >>= StaticType.referenceName?).isSome
        · obtain ⟨name', hname, hclass⟩ := (Option.any_eq_true _ _).mp hlocal
          obtain rfl := Expr.eq_name_of_assigned? hname
          have hsome : (K.types name').isSome := by
            cases htype : K.types name' with
            | none => simp [htype] at hclass
            | some type => rfl
          -- The field is looked up in the class that the local is declared with.
          refine (ctx.tracks_local hsome).bind fun v w u hv => ?_
          obtain ⟨⟨hv, hw, hu⟩, htype, hwtype, hutype⟩ := hv
          rw [← htype] at hclass
          rw [ctx.memberValue_congr hv hw hwtype hclass, ctx.memberValue_congr hv hu hutype hclass]
          exact (Tracks.same (ctx.composed_memberValue v name)).fixed
        · rw [if_neg (by simp only [Bool.or_eq_true]; exact not_or.mpr ⟨hfixed, hlocal⟩)]
          exact (hreceiver.bind fun v w u _ => ctx.tracks_memberValue v w u name).loose
  | .name name, _, _ => by
    rw [Expr.grade]
    by_cases hname : (K.types name).isSome
    · rw [if_pos hname]
      refine (ctx.tracks_local hname).mono fun v w u hv => ?_
      obtain ⟨⟨hv, hw, hu⟩, -, hwtype, hutype⟩ := hv
      exact ⟨.of_alike ⟨hwtype, hw.trans hv.symm⟩, .of_alike ⟨hutype, hu.trans hv.symm⟩⟩
    · exact (ctx.tracks_otherName (Option.not_isSome_iff_eq_none.mp hname)).fixed
  | .this none, _, _ => by
    rw [expr]
    exact .pure (.of_eq ⟨rfl, rfl⟩)
  | .this (some qualifier), _, _ => by
    rw [expr]
    split
    · exact .pure (.of_eq ⟨rfl, rfl⟩)
    · exact .pure (.of_eq ⟨rfl, rfl⟩)
  | .super, _, _ => by
    rw [expr]
    split
    · exact .pure (.of_eq ⟨rfl, rfl⟩)
    · exact .pure (.of_eq ⟨rfl, rfl⟩)
  | .literal l, _, _ => by
    rw [expr]
    exact .pure (.of_eq ⟨rfl, rfl⟩)
  | .binary op left right, h, hi => by
    rw [Expr.direct, Bool.and_eq_true] at h
    rw [Expr.events] at hi
    rw [expr, Expr.grade]
    refine (tracks_expr ctx hprogram left h.1 hi.left).bind fun v w u hv => ?_
    refine (tracks_expr ctx hprogram right h.2 hi.right).bind fun v' w' u' hv' => .pure ⟨?_, ?_⟩
    · refine Grade.agree_ite fun hsteady => ?_
      rw [Bool.and_eq_true] at hsteady
      exact Value.binary_congr (hv.1.alike hsteady.1).1 (hv'.1.alike hsteady.2).1
    · refine Grade.agree_ite fun hsteady => ?_
      rw [Bool.and_eq_true] at hsteady
      exact Value.binary_congr (hv.2.alike hsteady.1).1 (hv'.2.alike hsteady.2).1
  | .instanceOf value type binding, h, hi => by
    rw [Expr.direct] at h
    rw [Expr.events] at hi
    rw [expr]
    refine (tracks_expr ctx hprogram value h hi.left).bind fun v w u _ => ?_
    cases binding with
    | none => exact .pure (.of_eq ⟨rfl, rfl⟩)
    | some name =>
      have hname : (K.types name).isSome := hi.right name (by simp)
      exact (tracks_declareAssign hname _ _ _ _ _ _).bind fun _ _ _ _ => .pure (.of_eq ⟨rfl, rfl⟩)
  | .assign target value, h, hi => by
    rw [Expr.direct, Bool.and_eq_true] at h
    rw [Expr.events] at hi
    have htarget := tracks_expr ctx hprogram target h.1 hi.right
    rw [expr.eq_def, Expr.grade]
    dsimp only
    refine (tracks_expr ctx hprogram value h.2 hi.left).bind fun v w u hv => ?_
    split
    · exact (ctx.tracks_assignName _ v w u).bind fun _ _ _ _ => .pure hv
    · exact (tracks_writeTo _ _ _ v w u).bind fun _ _ _ _ => .pure hv
    · rw [Expr.direct] at h
      rw [Expr.events] at hi
      refine (tracks_expr ctx hprogram _ h.1 hi.right).bind fun r r' r'' _ => ?_
      exact (tracks_writeTo _ _ _ v w u).bind fun _ _ _ _ => .pure hv
    · exact htarget.discard.bind fun _ _ _ _ => .pure hv
  | .cast type value, h, hi => by
    rw [Expr.direct] at h
    rw [Expr.events] at hi
    rw [expr, Expr.grade]
    refine (tracks_expr ctx hprogram value h hi).bind fun v w u hv => .pure ?_
    by_cases hfixed : (value.grade K.types).isFixed
    · rw [hv.1.eq hfixed, hv.2.eq hfixed]
      exact .of_eq ⟨rfl, rfl⟩
    · rw [if_neg hfixed]
      exact ⟨.of_alike ⟨rfl, rfl⟩, .of_alike ⟨rfl, rfl⟩⟩
  | .conditional condition yes no, h, hi => by
    rw [Expr.direct, Bool.and_eq_true, Bool.and_eq_true] at h
    obtain ⟨⟨hcondition, hyes⟩, hno⟩ := h
    rw [Expr.events] at hi
    rw [expr, Expr.grade]
    refine (tracks_expr ctx hprogram condition hcondition hi.left).discard.bind fun _ _ _ _ => ?_
    refine (tracks_expr ctx hprogram yes hyes hi.right.left).bind fun v w u hv => ?_
    refine (tracks_expr ctx hprogram no hno hi.right.right).bind fun v' w' u' hv' => .pure ?_
    have halike {a b a' b' : Value} (ha : a.type = b.type) (ha' : a'.type = b'.type) :
        ({ b.orElse b' with kind := .object } : Value).type =
          ({ a.orElse a' with kind := .object } : Value).type := by
      simp [Value.orElse, ha, ha']
    exact ⟨hv.1.both hv'.1 (f := fun a b => { a.orElse b with kind := .object })
        fun ha _ ha' _ => ⟨halike ha ha', rfl⟩,
      hv.2.both hv'.2 (f := fun a b => { a.orElse b with kind := .object })
        fun ha _ ha' _ => ⟨halike ha ha', rfl⟩⟩
  | .arrayAccess array index, h, hi => by
    rw [Expr.direct, Bool.and_eq_true] at h
    rw [Expr.events] at hi
    rw [expr, Expr.grade]
    refine (tracks_expr ctx hprogram array h.1 hi.left).bind fun v w u hv => ?_
    refine (tracks_expr ctx hprogram index h.2 hi.right).discard.bind fun _ _ _ _ => ?_
    by_cases hsteady : (array.grade K.types).isSteady
    · rw [(hv.1.alike hsteady).1, (hv.2.alike hsteady).1]
      cases v.type >>= StaticType.element? with
      | none => exact .pure (.of_eq ⟨rfl, rfl⟩)
      | some element => exact .pure (.of_eq ⟨rfl, rfl⟩)
    · rw [if_neg hsteady]
      generalize v.type >>= StaticType.element? = element₁,
        w.type >>= StaticType.element? = element₂, u.type >>= StaticType.element? = element₃
      cases element₁ <;> cases element₂ <;> cases element₃ <;> exact .pure (agrees_loose _ _ _)
  | .arrayNew type elements, h, hi => by
    rw [Expr.direct] at h
    rw [Expr.events] at hi
    rw [expr]
    exact (tracks_exprs ctx hprogram elements h hi).discard.bind
      fun _ _ _ _ => .pure (.of_eq ⟨rfl, rfl⟩)
  | .lambda params body, h, hi => by
    rw [Expr.direct] at h
    rw [Expr.events] at hi
    rw [expr]
    refine (ctx.tracks_declareParams hi.left).bind fun _ _ _ _ => ?_
    exact (tracks_stmts { ctx with inLambda := true } hprogram body h hi.right).bind
      fun _ _ _ _ => .pure (.of_eq ⟨rfl, rfl⟩)
  | .switch selector body values, h, hi => by
    rw [Expr.direct, Bool.and_eq_true, Bool.and_eq_true] at h
    obtain ⟨⟨hselector, hbody⟩, hvalues⟩ := h
    rw [Expr.events] at hi
    rw [expr]
    refine (tracks_expr ctx hprogram selector hselector hi.left).discard.bind fun _ _ _ _ => ?_
    refine (tracks_stmts ctx hprogram body hbody hi.right.left).bind fun _ _ _ _ => ?_
    refine (tracks_exprs ctx hprogram values hvalues hi.right.right).bind fun vs ws us _ => ?_
    exact .pure (agrees_loose _ _ _)
  | .methodRef receiver name, h, hi => by
    rw [Expr.direct, Bool.and_eq_true] at h
    rw [Expr.events] at hi
    rw [expr]
    by_cases hfixed : (receiver.grade K.types).isFixed
    · refine (tracks_expr ctx hprogram receiver h.1 hi).bind fun v w u hv => ?_
      rw [hv.1.eq hfixed, hv.2.eq hfixed]
      exact (Tracks.same ((ctx.composed_methodReference v name).before fun _ => .pure _)).fixed
    · obtain ⟨name', rfl, hlocal⟩ := Expr.exists_local_of_isHandle h.2 hfixed
      refine Tracks.congr_ends ?_ (fun _ s => ends_bind_assoc _ _ _ s)
        (fun _ s => ends_bind_assoc _ _ _ s) fun _ s => ends_bind_assoc _ _ _ s
      exact (tracks_referenceOnLocal hprogram hlocal name).bind
        fun _ _ _ _ => .pure (.of_eq ⟨rfl, rfl⟩)
  | .other parts, h, hi => by
    rw [Expr.direct] at h
    rw [Expr.events] at hi
    rw [expr]
    exact (tracks_exprs ctx hprogram parts h hi).discard.bind
      fun _ _ _ _ => .pure (.of_eq ⟨rfl, rfl⟩)
termination_by e => sizeOf e

theorem tracks_exprs (ctx : BodyContext) (hprogram : ctx.program = K.program) :
    (es : List Expr) → Expr.allDirect K.types es → K.Introduces (Expr.allEvents es) →
      K.Tracks (fun vs ws us => Expr.allSteady K.types es →
          ws.map Value.type = vs.map Value.type ∧ us.map Value.type = vs.map Value.type)
        (ctx.exprs es) (ctx.exprs es) (ctx.exprs es)
  | [], _, _ => by
    rw [exprs]
    exact .pure fun _ => ⟨rfl, rfl⟩
  | e :: es, h, hi => by
    rw [Expr.allDirect, Bool.and_eq_true] at h
    rw [Expr.allEvents] at hi
    rw [exprs]
    refine (tracks_expr ctx hprogram e h.1 hi.left).bind fun v w u hv => ?_
    refine (tracks_exprs ctx hprogram es h.2 hi.right).bind fun vs ws us hvs => .pure fun hall => ?_
    rw [Expr.allSteady, Bool.and_eq_true] at hall
    obtain ⟨hws, hus⟩ := hvs hall.2
    simp [(hv.1.alike hall.1).1, (hv.2.alike hall.1).1, hws, hus]
termination_by es => sizeOf es

theorem tracks_siteReceivers (ctx : BodyContext) (hprogram : ctx.program = K.program)
    (name : String) :
    (r : Receiver) → r.direct K.types → r.isFixed K.types → K.Introduces r.events →
      K.Tracks (fun rs rs' rs'' => rs' = rs ∧ rs'' = rs) (ctx.siteReceivers name r)
        (ctx.siteReceivers name r) (ctx.siteReceivers name r)
  | .implicit, _, _, _ => by
    rw [siteReceivers]
    exact .pure ⟨rfl, rfl⟩
  | .super, _, _, _ => by
    rw [siteReceivers]
    exact .pure ⟨rfl, rfl⟩
  | .qualifiedSuper qualifier, _, _, _ => by
    rw [siteReceivers]
    exact .pure ⟨rfl, rfl⟩
  | .expr e, h, hfixed, hi => by
    rw [Receiver.direct, Bool.and_eq_true] at h
    rw [Receiver.isFixed] at hfixed
    rw [Receiver.events] at hi
    rw [siteReceivers]
    refine (tracks_expr ctx hprogram e h.1 hi).bind fun v w u hv => .pure ?_
    rw [hv.1.eq hfixed, hv.2.eq hfixed]
    exact ⟨rfl, rfl⟩
termination_by r => sizeOf r

theorem tracks_stmt (ctx : BodyContext) (hprogram : ctx.program = K.program) :
    (s : Stmt) → s.direct K.types → K.Introduces s.events →
      K.Tracks (fun _ _ _ => True) (ctx.stmt s) (ctx.stmt s) (ctx.stmt s)
  | .localVar name type none, _, hi => by
    rw [Stmt.events] at hi
    rw [stmt]
    exact tracks_declare (hi name (by simp)) _
  | .localVar name type (some init), h, hi => by
    rw [Stmt.direct] at h
    rw [Stmt.events] at hi
    rw [stmt]
    refine (tracks_expr ctx hprogram init h hi.left).bind fun v w u _ => ?_
    exact tracks_declareAssign (hi.right name (by simp)) _ _ _ _ _ _
  | .forEach name type iterable, h, hi => by
    rw [Stmt.direct] at h
    rw [Stmt.events] at hi
    rw [stmt]
    refine (tracks_expr ctx hprogram iterable h hi.left).bind fun v w u _ => ?_
    exact tracks_declareAssign (hi.right name (by simp)) _ _ _ _ _ _
  | .expr e, h, hi => by
    rw [Stmt.direct] at h
    rw [Stmt.events] at hi
    rw [stmt]
    exact (tracks_expr ctx hprogram e h hi).discard
  | .ret none, _, _ => by
    rw [stmt]
    exact .pure trivial
  | .ret (some e), h, hi => by
    rw [Stmt.direct] at h
    rw [Stmt.events] at hi
    rw [stmt]
    refine (tracks_expr ctx hprogram e h hi).bind fun v w u _ => ?_
    split
    · exact .pure trivial
    · exact tracks_addReturn v w u
  | .ctorCall target args line, h, hi => by
    rw [Stmt.direct, Bool.and_eq_true] at h
    rw [Stmt.events] at hi
    rw [stmt]
    refine (tracks_exprs ctx hprogram args h.1 hi).bind fun vs ws us hargs => ?_
    obtain ⟨hws, hus⟩ := hargs h.2
    cases target with
    | this =>
      dsimp only
      rw [ctx.callConstructor_congr hws, ctx.callConstructor_congr hus]
      exact (Tracks.same (ctx.composed_callConstructor _ _)).mono fun _ _ _ _ => trivial
    | super =>
      dsimp only
      split
      · rw [ctx.callConstructor_congr hws, ctx.callConstructor_congr hus]
        exact (Tracks.same (ctx.composed_callConstructor _ _)).mono fun _ _ _ _ => trivial
      · exact .pure trivial
termination_by s => sizeOf s

theorem tracks_stmts (ctx : BodyContext) (hprogram : ctx.program = K.program) :
    (ss : List Stmt) → Stmt.allDirect K.types ss → K.Introduces (Stmt.allEvents ss) →
      K.Tracks (fun _ _ _ => True) (ctx.stmts ss) (ctx.stmts ss) (ctx.stmts ss)
  | [], _, _ => by
    rw [stmts]
    exact .pure trivial
  | s :: ss, h, hi => by
    rw [Stmt.allDirect, Bool.and_eq_true] at h
    rw [Stmt.allEvents] at hi
    rw [stmts]
    exact (tracks_stmt ctx hprogram s h.1 hi.left).bind fun _ _ _ _ =>
      tracks_stmts ctx hprogram ss h.2 hi.right
termination_by ss => sizeOf ss

end

/-! ### Bodies -/

variable (ctx : BodyContext)

theorem tracks_initialise (hprogram : ctx.program = K.program) {decl : TypeDecl} {isStatic : Bool}
    (h : decl.initDirect K.types isStatic) (hi : K.Introduces (decl.initEvents isStatic)) :
    K.Tracks (fun _ _ _ => True) (ctx.initialise decl isStatic) (ctx.initialise decl isStatic)
      (ctx.initialise decl isStatic) := by
  rw [TypeDecl.initDirect, Bool.and_eq_true, List.all_eq_true, List.all_eq_true] at h
  refine (Tracks.forM fun f hf => ?_).bind fun _ _ _ _ => .forM fun block hblock => ?_
  · have hfield := h.1 f hf
    have hevents : K.Introduces ((f.init.map Expr.events).getD []) := fun name hname =>
      hi.left name (List.mem_flatMap.mpr ⟨f, hf, hname⟩)
    unfold initField
    cases hinit : f.init with
    | none => exact .pure trivial
    | some init =>
      rw [hinit] at hfield hevents
      refine (tracks_expr ctx hprogram init hfield hevents).bind fun v w u _ => ?_
      exact tracks_writeTo _ _ _ v w u
  · refine tracks_stmts ctx hprogram block.body (h.2 block hblock) fun name hname => ?_
    exact hi.right name (List.mem_flatMap.mpr ⟨block, hblock, hname⟩)

theorem tracks_constructorPass (hprogram : ctx.program = K.program) {decl : TypeDecl}
    {body : List Stmt} (h : decl.constructorDirect K.types body)
    (hi : K.Introduces (decl.constructorEvents body)) :
    K.Tracks (fun _ _ _ => True) (ctx.constructorPass decl body) (ctx.constructorPass decl body)
      (ctx.constructorPass decl body) := by
  unfold constructorPass
  split
  · rw [TypeDecl.constructorDirect, Bool.and_eq_true, Bool.and_eq_true] at h
    obtain ⟨⟨hcall, hinit⟩, hrest⟩ := h
    rw [TypeDecl.constructorEvents] at hi
    refine (tracks_stmt ctx hprogram _ hcall hi.left).bind fun _ _ _ _ => ?_
    have hi := hi.right
    split
    · next hother =>
      rw [if_pos hother] at hi
      rw [Bool.or_eq_true] at hinit
      have hinit := hinit.resolve_left (by simpa using hother)
      exact (ctx.tracks_initialise hprogram hinit hi.left).bind fun _ _ _ _ =>
        tracks_stmts ctx hprogram _ hrest hi.right
    · next hthis =>
      rw [if_neg hthis] at hi
      exact tracks_stmts ctx hprogram _ hrest hi
  · next hother =>
    rw [TypeDecl.constructorDirect, Bool.and_eq_true] at h
    · rw [TypeDecl.constructorEvents] at hi
      · have himplicit : K.Tracks (fun _ _ _ => True) (ctx.implicitSuper decl)
            (ctx.implicitSuper decl) (ctx.implicitSuper decl) :=
          (Tracks.same (ctx.composed_implicitSuper decl)).mono fun _ _ _ _ => trivial
        refine himplicit.bind fun _ _ _ _ => ?_
        exact (ctx.tracks_initialise hprogram h.1 hi.left).bind fun _ _ _ _ =>
          tracks_stmts ctx hprogram _ h.2 hi.right
      · exact hother
    · exact hother

end BodyContext

open BodyContext Comparison

theorem Body.tracks_passOf {K : Comparison} {b : Body} {ctx : BodyContext} {params : List Param}
    {pass : Walk Unit} (h : passOf K.program b = some (ctx, params, pass))
    (hdirect : b.direct K.types) (hi : K.Introduces b.events) :
    K.Tracks (fun _ _ _ => True) pass pass pass := by
  unfold passOf at h
  unfold Body.events at hi
  unfold Body.direct at hdirect
  dsimp only at h
  cases hb : b.kind with
  | declared index =>
    rw [hb] at h hi hdirect
    obtain ⟨m, hm, h⟩ := Option.bind_eq_some_iff.mp h
    obtain ⟨body, hbody, h⟩ := Option.bind_eq_some_iff.mp h
    dsimp only at hi hdirect
    rw [hm] at hi hdirect
    dsimp only at hi hdirect
    rw [hbody, Option.getD_some] at hi hdirect
    split at h
    · next hkind =>
      cases h
      rw [if_pos hkind] at hi hdirect
      exact tracks_constructorPass _ rfl hdirect hi
    · next hkind =>
      cases h
      rw [if_neg (by simp [hkind])] at hi hdirect
      exact tracks_stmts _ rfl _ hdirect hi
  | defaultConstructor =>
    rw [hb] at h hi hdirect
    cases h
    exact tracks_constructorPass _ rfl hdirect hi
  | staticInit =>
    rw [hb] at h hi hdirect
    cases h
    exact tracks_initialise _ rfl hdirect hi

end JavaCallGraph
