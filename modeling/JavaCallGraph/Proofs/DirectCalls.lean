import JavaCallGraph.Proofs.SteadyValues

/-!
# Calls on locals

A call on a local dispatches over what the local holds. Where another walk has an open local of the
same type that admits all this, it finds every method with a body there, too. References to
methods are treated alike.
-/

namespace JavaCallGraph

namespace TypeIndex

variable {x : TypeIndex} {set set' : ConstraintSet} {type : Option StaticType} {s : Signature}
  {found : String → List Resolution}

def spread (x : TypeIndex) (set : ConstraintSet) (type : Option StaticType)
    (found : String → List Resolution) : List Resolution :=
  (x.receiverTypes set type).elim [] fun types => x.completeFor set (types.toList.flatMap found)

theorem resolve_object (x : TypeIndex) (name : String) (args : ArgTypes) (set : ConstraintSet)
    (type : Option StaticType) :
    x.resolve name (.object set type) args =
      Resolution.finish (x.spread set type fun runtime =>
        Overload.select x.hierarchy (x.candidates runtime name) args
          (type.getD (.reference runtime))) := by
  rw [resolve, resolveInstance, spread]
  cases x.receiverTypes set type <;> rfl

theorem resolveReference_object (x : TypeIndex) (name : String) (set : ConstraintSet)
    (type : Option StaticType) :
    x.resolveReference name (.object set type) =
      Resolution.finish (x.spread set type fun runtime =>
        (x.catalog.methodsNamed runtime name).map (⟨·, ∅⟩)) := by
  rw [resolveReference, spread]
  cases x.receiverTypes set type <;> rfl

theorem lists_spread (hfound : ∀ runtime, ∀ r ∈ found runtime, x.catalog.Lists r.method) :
    ∀ r ∈ x.spread set type found, x.catalog.Lists r.method := by
  unfold spread
  cases x.receiverTypes set type with
  | none => simp
  | some types =>
    apply lists_completeFor
    intro r hr
    obtain ⟨runtime, -, hr⟩ := List.mem_flatMap.mp hr
    exact hfound runtime r hr

theorem exists_mem_spread (hset : set.isEmpty = false) {m : Method} :
    (∃ r ∈ x.spread set type found, r.method = m) ↔
      ∃ runtime ∈ set.types, ∃ r ∈ found runtime, r.method = m ∨ set.unresolved ∧
        r.method.isDispatched ∧ m ∈ x.catalog.overriders x.hierarchy r.method := by
  simp only [spread, receiverTypes, hset, Bool.not_false, if_true, Option.elim_some]
  rw [exists_mem_completeFor]
  simp only [List.mem_flatMap, Std.ExtTreeSet.mem_toList, hset, Bool.false_eq_true, or_false]
  constructor
  · rintro (⟨r, ⟨t, ht, hr⟩, rfl⟩ | ⟨hopen, r, ⟨t, ht, hr⟩, hrest⟩)
    · exact ⟨t, ht, r, hr, .inl rfl⟩
    · exact ⟨t, ht, r, hr, .inr ⟨hopen, hrest⟩⟩
  · rintro ⟨t, ht, r, hr, rfl | ⟨hopen, hrest⟩⟩
    · exact .inl ⟨r, ⟨t, ht, hr⟩, rfl⟩
    · exact .inr ⟨hopen, r, ⟨t, ht, hr⟩, hrest⟩

/-- An open set with more runtime types loses abstract methods only. An empty set must find nothing
by itself, as it does if it is not open or if there is no class to fall back on. -/
theorem spread_covered (hfound : ∀ runtime, ∀ r ∈ found runtime, x.catalog.Lists r.method)
    (hempty : set.isEmpty → set.unresolved → (type >>= StaticType.referenceName?) = none)
    (htypes : ∀ t ∈ set.types, t ∈ set'.types) (hopen : set'.unresolved)
    (h : ∃ r ∈ Resolution.finish (x.spread set type found), r.method.signature = s) :
    (∃ r ∈ Resolution.finish (x.spread set' type found), r.method.signature = s) ∨
      x.HasAbstract s := by
  obtain ⟨r, hr, hs⟩ := h
  have hspread := (Resolution.mem_dropAbstract.mp (Resolution.mem_of_mem_sortUnique hr)).1
  by_cases habstract : r.method.isAbstract
  · exact .inr ⟨r.method, lists_spread hfound r hspread, hs, habstract⟩
  · rw [Bool.not_eq_true] at habstract
    have hset : set.isEmpty = false := by
      rw [Bool.eq_false_iff]
      intro hnone
      cases hunresolved : set.unresolved with
      | false => simp [spread, receiverTypes, hnone, hunresolved] at hspread
      | true =>
        simp [spread, receiverTypes, hnone, hunresolved, hempty hnone hunresolved] at hspread
    obtain ⟨t, ht, q, hq, hadded⟩ := (exists_mem_spread hset).mp ⟨r, hspread, rfl⟩
    obtain ⟨r', hr', hmethod⟩ := (exists_mem_spread (isEmpty_eq_false (htypes t ht))).mpr
      ⟨t, htypes t ht, q, hq, hadded.imp_right fun hover => ⟨hopen, hover.2⟩⟩
    obtain ⟨k, hk, hks, -⟩ := Resolution.exists_body_mem_finish.mpr
      ⟨r', hr', by rw [hmethod, hs], by rw [hmethod, habstract]⟩
    exact .inl ⟨k, hk, hks⟩

end TypeIndex

/-! ### The values of locals -/

namespace BodyContext

variable (ctx : BodyContext)

@[simp] theorem type_localValue (l : Local) : (ctx.localValue l).type = l.type := by
  unfold localValue
  split
  · next h => rw [h]; rfl
  · next h => rw [h]

@[simp] theorem kind_localValue (l : Local) : (ctx.localValue l).kind = .object := by
  unfold localValue
  split <;> rfl

theorem mem_localValue {l : Local} {t : String} (ht : t ∈ (ctx.localValue l).set.types) :
    t ∈ l.set.types ∨ ∃ type, l.type = some type ∧ t ∈ (ctx.setOf type).types := by
  unfold localValue at ht
  split at ht
  · next type htype =>
    dsimp only [Value.ofType] at ht
    split at ht
    · exact (Std.ExtTreeSet.mem_union_iff.mp ht).imp_right fun h => ⟨type, htype, h⟩
    · exact .inl ht
  · exact .inl ht

/-- An open local has what it holds and what its type allows. -/
theorem localValue_of_unresolved {l : Local} (hl : l.set.unresolved) :
    (ctx.localValue l).set.unresolved ∧ (∀ t ∈ l.set.types, t ∈ (ctx.localValue l).set.types) ∧
      ∀ type, l.type = some type → ∀ t ∈ (ctx.setOf type).types,
        t ∈ (ctx.localValue l).set.types := by
  unfold localValue
  split
  · next type htype =>
    simp only [Value.ofType, hl, Bool.or_true, if_true, ConstraintSet.unresolved_union,
      Bool.true_or, ConstraintSet.types_union, Std.ExtTreeSet.mem_union_iff, true_and]
    refine ⟨fun t ht => .inl ht, fun type' htype' t ht => .inr ?_⟩
    cases htype.symm.trans htype'
    exact ht
  · next htype => exact ⟨hl, fun _ => id, fun type htype' => by simp [htype] at htype'⟩

/-- A local that is open and empty is not of a class. -/
theorem referenceName?_of_isEmpty {l : Local} (hempty : (ctx.localValue l).set.isEmpty)
    (hopen : (ctx.localValue l).set.unresolved) :
    ((ctx.localValue l).type >>= StaticType.referenceName?) = none := by
  rw [type_localValue]
  cases htype : l.type with
  | none => rfl
  | some type =>
    rw [Option.bind_eq_bind, Option.bind_some, ← Option.not_isSome_iff_eq_none]
    intro hname
    obtain ⟨name, hname⟩ := Option.isSome_iff_exists.mp hname
    have hmem : name ∈ (ctx.setOf type).types := by
      have hdesc : type.desc = .reference name := by
        cases hd : type.desc <;> simp_all [StaticType.referenceName?, Descriptor.referenceName?]
      rw [setOf, ConstraintSet.ofType, hdesc]
      exact (Hierarchy.mem_cone ctx.hierarchy).mpr (.inl rfl)
    have hvalue : name ∈ (ctx.localValue l).set.types := by
      simp only [localValue, htype, Value.ofType] at hopen ⊢
      split
      · exact Std.ExtTreeSet.mem_union_of_right hmem
      · next hclosed => simp_all
    rw [TypeIndex.isEmpty_eq_false hvalue] at hempty
    cases hempty

/-- What a call or a reference finds on a local, it finds on an open local that admits it. -/
theorem spread_localValue_covered {x : TypeIndex} {found : String → List Resolution}
    (hfound : ∀ runtime, ∀ r ∈ found runtime, x.catalog.Lists r.method) {l l' : Local}
    (htype : l'.type = l.type) (hopen : l'.set.unresolved)
    (hadmits : ∀ t ∈ l.set.types, t ∈ l'.set.types ∨
      ∃ type, l.type = some type ∧ t ∈ (ctx.setOf type).types) {s : Signature}
    (h : ∃ r ∈ Resolution.finish (x.spread (ctx.localValue l).set l.type found),
      r.method.signature = s) :
    (∃ r ∈ Resolution.finish (x.spread (ctx.localValue l').set l.type found),
      r.method.signature = s) ∨ x.HasAbstract s := by
  obtain ⟨hunresolved, hheld, hallowed⟩ := ctx.localValue_of_unresolved hopen
  refine TypeIndex.spread_covered hfound (fun hempty hset => ?_) (fun t ht => ?_) hunresolved h
  · rw [← ctx.type_localValue l]
    exact ctx.referenceName?_of_isEmpty hempty hset
  · have hallow : (∃ type, l.type = some type ∧ t ∈ (ctx.setOf type).types) →
        t ∈ (ctx.localValue l').set.types := by
      rintro ⟨type, hl, ht⟩
      exact hallowed type (htype.trans hl) t ht
    rcases ctx.mem_localValue ht with hset | htype
    · exact (hadmits t hset).elim (hheld t) hallow
    · exact hallow htype

/-! ### What calls do to the state -/

open Walk

variable {answers : Question → Option (Option ConstraintSet)} {s t : WalkState} {α β : Type}

def Still (x : Walk α) : Prop :=
  ∀ (answers : Question → Option (Option ConstraintSet)) (s t : WalkState) (a : α),
    ends answers x s = some (a, t) → t = s

theorem Still.pure (a : α) : Still (Pure.pure a : Walk α) := by
  intro answers s t b h
  cases h
  rfl

theorem Still.bind {x : Walk α} {f : α → Walk β} (hx : Still x) (hf : ∀ a, Still (f a)) :
    Still (x >>= f) := by
  intro answers s u b h
  rw [ends_bind, Option.bind_eq_some_iff] at h
  obtain ⟨⟨a, t⟩, ht, hu⟩ := h
  rw [hf a answers t u b hu, hx answers s t a ht]

theorem Still.question (q : Question) : Still (Script.question q : Walk _) := by
  intro answers s t a h
  rw [ends_question, Option.map_eq_some_iff] at h
  obtain ⟨answer, -, heq⟩ := h
  cases heq
  rfl

theorem Still.foldlM {f : β → α → Walk β} (hf : ∀ b a, Still (f b a)) (b : β) (l : List α) :
    Still (l.foldlM f b) := by
  induction l generalizing b with
  | nil => exact .pure b
  | cons a l ih => exact (hf b a).bind fun b => ih b

theorem still_fieldValue (field : Field) (receiver : Option StaticType) :
    Still (ctx.fieldValue field receiver) := by
  refine (Still.question _).bind fun answer => ?_
  split
  · exact .pure _
  · exact .pure _

theorem still_memberValue (receiver : Value) (name : String) :
    Still (ctx.memberValue receiver name) := by
  unfold memberValue
  cases receiver.kind with
  | package package =>
    dsimp only
    split
    · exact .pure _
    · exact .pure _
  | type type =>
    dsimp only
    split
    · exact ctx.still_fieldValue _ _
    · exact .pure _
  | object =>
    dsimp only
    split
    · exact .pure _
    · split
      · exact ctx.still_fieldValue _ _
      · exact .pure _

theorem still_returned (found : List Resolution) : Still (ctx.returned found) := by
  refine (Still.foldlM (fun acc r => ?_) none found).bind fun _ => .pure _
  unfold addReturned
  dsimp only
  split
  · exact .pure _
  · refine (Still.question _).bind fun answer => ?_
    cases acc with
    | none => exact .pure _
    | some v => exact .pure _

theorem mem_callees_record {found : List Resolution} {c : Signature} :
    c ∈ (s.record found).summary.callees ↔
      c ∈ s.summary.callees ∨ ∃ r ∈ found, r.method.signature = c := by
  change c ∈ s.summary.callees.insertMany _ ↔ _
  rw [Std.ExtTreeSet.mem_insertMany_list, List.contains_iff_mem, List.mem_map]

theorem mem_callees_callOn {name : String} {args : List Value} {acc v : Option Value}
    {receiver : SiteReceiver} (h : ends answers (ctx.callOn name args acc receiver) s = some (v, t))
    {c : Signature} :
    c ∈ t.summary.callees ↔ c ∈ s.summary.callees ∨
      ∃ r ∈ ctx.program.index.resolve name receiver (args.map Value.type),
        r.method.signature = c := by
  rw [callOn, ends_bind] at h
  change Option.bind (some (_, s.record _)) _ = _ at h
  rw [Option.bind_some, ends_bind, Option.bind_eq_some_iff] at h
  obtain ⟨⟨w, u⟩, hu, h⟩ := h
  cases h
  rw [ctx.still_returned _ answers _ _ _ hu]
  exact mem_callees_record

theorem callOn_congr {name : String} {args args' : List Value}
    (h : args'.map Value.type = args.map Value.type) :
    ctx.callOn name args' = ctx.callOn name args := by
  funext acc receiver
  rw [callOn, callOn, resolve, resolve, h]

theorem callConstructor_congr {type : String} {args args' : List Value}
    (h : args'.map Value.type = args.map Value.type) :
    ctx.callConstructor type args' = ctx.callConstructor type args := by
  rw [callConstructor, callConstructor, resolve, resolve, h]

theorem ends_name_of_some {name : String} {l : Local} (hl : s.locals[name]? = some l) :
    ends answers (ctx.expr (.name name)) s = some (ctx.localValue l, s) := by
  have hget : ends answers MonadState.get s = some (s, s) := rfl
  rw [expr, nameValue, ends_bind, hget, Option.bind_some, hl]
  rfl

def callOnValue (name : String) (args : List Value) (v : Value) : Walk Value := do
  return (← (valueReceivers v).foldlM (ctx.callOn name args) none).getD .unknown

theorem composed_callOnValue (name : String) (args : List Value) (v : Value) :
    Composed [] (ctx.callOnValue name args v) :=
  (Composed.foldlM (ctx.composed_callOn name args) _ _).before fun _ => .pure _

theorem mem_callees_callOnValue {name : String} {args : List Value} {v w : Value}
    (hv : v.kind = .object) (h : ends answers (ctx.callOnValue name args v) s = some (w, t))
    {c : Signature} :
    c ∈ t.summary.callees ↔ c ∈ s.summary.callees ∨
      ∃ r ∈ ctx.program.index.resolve name (.object v.set v.type) (args.map Value.type),
        r.method.signature = c := by
  rw [callOnValue, valueReceivers, hv] at h
  dsimp only at h
  split at h
  · next hnever =>
    cases h
    have hnone : ctx.program.index.resolve name (.object v.set v.type) (args.map Value.type) =
        [] := by
      rw [ConstraintSet.isNever, Bool.and_eq_true, Bool.not_eq_true'] at hnever
      rw [TypeIndex.resolve_object]
      simp [TypeIndex.spread, TypeIndex.receiverTypes, hnever.1, hnever.2, Resolution.finish,
        Resolution.dropAbstract, Resolution.sortUnique, Resolution.bySignature]
    simp [hnone]
  · rw [List.foldlM_cons, ends_bind, Option.bind_eq_some_iff] at h
    obtain ⟨⟨acc, u⟩, hu, h⟩ := h
    rw [ends_bind, Option.bind_eq_some_iff] at hu
    obtain ⟨⟨acc', u'⟩, hu', hu⟩ := hu
    cases hu
    cases h
    exact ctx.mem_callees_callOn hu'

theorem mem_callees_methodReference {name : String} {v : Value} {u : Unit} (hv : v.kind = .object)
    (h : ends answers (ctx.methodReference v name) s = some (u, t)) {c : Signature} :
    c ∈ t.summary.callees ↔ c ∈ s.summary.callees ∨
      ∃ r ∈ ctx.program.index.resolveReference name (.object v.set v.type),
        r.method.signature = c := by
  rw [methodReference, referenceReceiver?, hv] at h
  cases h
  exact mem_callees_record

end BodyContext

/-! ### Calls on locals in three walks -/

namespace Comparison

open Walk BodyContext

variable {K : Comparison} {α : Type}

/-- A call on a local, or a reference to a method of its value. What it finds depends on the runtime
types of the local and on its type. -/
theorem tracks_onLocal {ctx : BodyContext} (hprogram : ctx.program = K.program) {name : String}
    (hname : (K.types name).isSome) {f g k : Value → Walk α}
    (found : Option StaticType → String → List Resolution)
    (hlists : ∀ type runtime, ∀ r ∈ found type runtime, K.program.catalog.Lists r.method)
    (hf : ∀ v, Composed [] (f v)) (hg : ∀ v, Composed [] (g v)) (hk : ∀ v, Composed [] (k v))
    (hcallees : ∀ w ∈ [g, k], ∀ (answers : Question → Option (Option ConstraintSet))
      (s t : WalkState) (v : Value) (a : α), v.kind = .object →
      ends answers (w v) s = some (a, t) → ∀ c, c ∈ t.summary.callees ↔ c ∈ s.summary.callees ∨
        ∃ r ∈ Resolution.finish (K.program.index.spread v.set v.type (found v.type)),
          r.method.signature = c) :
    K.Tracks (fun _ _ _ => True) (ctx.expr (.name name) >>= f) (ctx.expr (.name name) >>= g)
      (ctx.expr (.name name) >>= k) := by
  intro s₁ s₂ s₃ t₁ t₂ t₃ a b c hs₁ hs₂ hs₃ hx hy hz
  have hname' := composed_expr ctx (.name name)
  refine ⟨trivial, .of_composed (hname'.andThen hf) (hname'.andThen hg) (hname'.andThen hk)
    (by simp [Expr.events]) hs₁ hs₂ hs₃ hx hy hz fun hst hadmits callee hcallee => ?_⟩
  obtain ⟨l, hl, htype⟩ := hs₂.exists_local hname
  obtain ⟨l', hl', htype'⟩ := hs₃.exists_local hname
  have htypes : l'.type = l.type := Option.some.inj (htype'.symm.trans htype)
  rw [ends_bind, ctx.ends_name_of_some hl, Option.bind_some] at hy
  rw [ends_bind, ctx.ends_name_of_some hl', Option.bind_some] at hz
  dsimp only at hy hz
  rw [hcallees g (by simp) _ _ _ _ _ (ctx.kind_localValue l) hy, ctx.type_localValue] at hcallee
  rw [hcallees k (by simp) _ _ _ _ _ (ctx.kind_localValue l') hz, ctx.type_localValue, htypes]
  refine hcallee.imp_right fun hfound => ?_
  -- What the local holds is among what it holds in the end, and that is admitted.
  obtain ⟨last, hlast, hle⟩ := hst.locals name l hl
  obtain ⟨wide, hwide, hopen, hadmitted⟩ := hadmits name last hlast
  cases hl'.symm.trans hwide
  have hsetOf : ∀ type, ctx.setOf type = ConstraintSet.ofType K.program.hierarchy type := by
    intro type
    rw [BodyContext.setOf, BodyContext.hierarchy, hprogram]
  refine (ctx.spread_localValue_covered (hlists l.type) htypes hopen (fun t ht => ?_)
    hfound).imp_left .inr
  rw [hle.1]
  simp only [hsetOf]
  exact hadmitted t (hle.2.1.1 t ht)

theorem lists_select {x : TypeIndex} {runtime name : String} {args : ArgTypes} {view : StaticType} :
    ∀ r ∈ Overload.select x.hierarchy (x.candidates runtime name) args view,
      x.catalog.Lists r.method :=
  fun _ hr => TypeIndex.lists_candidates (Overload.mem_of_mem_select hr)

theorem tracks_callOnLocal {ctx : BodyContext} (hprogram : ctx.program = K.program)
    {local' : String} (hlocal : (K.types local').isSome) (name : String)
    {args args' args'' : List Value}
    (hargs' : args'.map Value.type = args.map Value.type)
    (hargs'' : args''.map Value.type = args.map Value.type) :
    K.Tracks (fun _ _ _ => True) (ctx.expr (.name local') >>= ctx.callOnValue name args)
      (ctx.expr (.name local') >>= ctx.callOnValue name args')
      (ctx.expr (.name local') >>= ctx.callOnValue name args'') := by
  refine tracks_onLocal hprogram hlocal (fun type runtime =>
      Overload.select K.program.hierarchy (K.program.index.candidates runtime name)
        (args.map Value.type) (type.getD (.reference runtime))) (fun _ _ => lists_select)
    (ctx.composed_callOnValue name args) (ctx.composed_callOnValue name args')
    (ctx.composed_callOnValue name args'') fun w hw => ?_
  intro answers s t v a hv hends c
  simp only [List.mem_cons, List.not_mem_nil, or_false] at hw
  rcases hw with rfl | rfl
  · rw [ctx.mem_callees_callOnValue hv hends, TypeIndex.resolve_object, hargs', hprogram]
    rfl
  · rw [ctx.mem_callees_callOnValue hv hends, TypeIndex.resolve_object, hargs'', hprogram]
    rfl

theorem tracks_referenceOnLocal {ctx : BodyContext} (hprogram : ctx.program = K.program)
    {local' : String} (hlocal : (K.types local').isSome) (name : String) :
    K.Tracks (fun _ _ _ => True) (ctx.expr (.name local') >>= (ctx.methodReference · name))
      (ctx.expr (.name local') >>= (ctx.methodReference · name))
      (ctx.expr (.name local') >>= (ctx.methodReference · name)) := by
  refine tracks_onLocal hprogram hlocal (fun _ runtime =>
      (K.program.catalog.methodsNamed runtime name).map (⟨·, ∅⟩)) ?_
    (ctx.composed_methodReference · name) (ctx.composed_methodReference · name)
    (ctx.composed_methodReference · name) fun w hw => ?_
  · intro type runtime r hr
    obtain ⟨m, hm, rfl⟩ := List.mem_map.mp hr
    exact Catalog.lists_of_mem_methodsNamed hm
  · intro answers s t v a hv hends c
    simp only [List.mem_cons, List.not_mem_nil, or_false, or_self] at hw
    subst hw
    rw [ctx.mem_callees_methodReference hv hends, TypeIndex.resolveReference_object, hprogram]
    rfl

end Comparison

end JavaCallGraph
