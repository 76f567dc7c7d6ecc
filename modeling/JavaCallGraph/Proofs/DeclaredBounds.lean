import JavaCallGraph.Proofs.DirectCalls
import JavaCallGraph.Proofs.InheritedMethods
import JavaCallGraph.Proofs.Narrowing
import JavaCallGraph.Proofs.PassFixedPoint
import JavaCallGraph.Proofs.TypeSubstitution

/-!
# Locals within their declared types

The walk checks no types, so a local can come to hold objects that its declared type does not
allow. Often the text of a body excludes this: what is assigned to a local is a new object of a
subtype, another local of a subtype, or the result of a cast. In such a body no pass lets a local
hold anything but what its declared type allows.
-/

namespace JavaCallGraph

namespace ConstraintSet

variable {h : Hierarchy} {s t bound : ConstraintSet}

def ofDeclared (h : Hierarchy) (type : Option StaticType) : ConstraintSet :=
  type.elim empty (ofType h)

def isWithin (s bound : ConstraintSet) : Bool := s.types.toList.all bound.types.contains

theorem isWithin_iff : s.isWithin bound ↔ ∀ t ∈ s.types, t ∈ bound.types := by
  simp [isWithin]

theorem isWithin_rfl : s.isWithin s := isWithin_iff.mpr fun _ => id

theorem isWithin_of_types_eq_empty (hs : s.types = ∅) : s.isWithin bound := by
  simp [isWithin_iff, hs]

theorem isWithin_trans (hs : s.isWithin t) (ht : t.isWithin bound) : s.isWithin bound := by
  rw [isWithin_iff] at hs ht ⊢
  exact fun name hname => ht name (hs name hname)

theorem isWithin_union (hs : s.isWithin bound) (ht : t.isWithin bound) :
    (s ∪ t).isWithin bound := by
  rw [isWithin_iff] at hs ht ⊢
  intro name hname
  rcases Std.ExtTreeSet.mem_union_iff.mp hname with hname | hname
  · exact hs name hname
  · exact ht name hname

theorem ofType_of_referenceName? {type : StaticType} {name : String}
    (hname : type.referenceName? = some name) : ofType h type = cone h name := by
  rw [StaticType.referenceName?] at hname
  cases hdesc : type.desc with
  | reference other =>
    rw [hdesc] at hname
    cases hname
    rw [ofType, hdesc]
  | primitive => simp [hdesc, Descriptor.referenceName?] at hname
  | array => simp [hdesc, Descriptor.referenceName?] at hname
  | typeVar => simp [hdesc, Descriptor.referenceName?] at hname

/-- Away from the root class, a cast leaves only what its target allows. -/
theorem isWithin_narrow {nodes : List TypeNode} {policy : CyclePolicy}
    (hb : Hierarchy.build nodes policy = .ok h) {target : StaticType}
    (htarget : target.referenceName? ≠ some Descriptor.objectName) :
    (s.narrow h target).isWithin (ofType h target) := by
  rw [isWithin_iff]
  intro t ht
  cases hname : target.referenceName? with
  | none => simp [narrow, hname, unknown] at ht
  | some name =>
    rw [ofType_of_referenceName? hname]
    by_cases hfits : ∃ member ∈ s.types, h.isSubtype member name
    · -- What is kept lies below the target, and that is its cone, since it is not the root class.
      obtain ⟨member, hmember, hsub⟩ := hfits
      have hfits := ((mem_narrow_of_fits hname hmember hsub).mp ht).2
      refine (Hierarchy.isSubtype_iff_mem_cone hb fun hobject => ?_).mp hfits
      exact htarget (hname.trans (congrArg some hobject))
    · rw [narrow_of_none_fits hname fun member hmember =>
        Bool.eq_false_iff.mpr fun hsub => hfits ⟨member, hmember, hsub⟩] at ht
      exact ht

end ConstraintSet

/-! ### Texts -/

namespace BodyContext

variable (ctx : BodyContext)

def declaredType (type : TypeRef) : Option StaticType :=
  if type.isInferred then none else some (ctx.bind type)

def declares (types : LocalTypes) (params : List Param) : Bool :=
  params.all fun p => types p.name = some (ctx.declaredType p.type)

end BodyContext

mutual

/-- By its text, the value of the expression is within `bound`. What a call returns or a field
holds is not known from the text, but a cast of it is. -/
def Expr.isWithin (ctx : BodyContext) (types : LocalTypes) (bound : ConstraintSet) : Expr → Bool
  | .new type _ bodyType _ => (bodyType.or (ctx.bind type).referenceName?).all fun target =>
    (ConstraintSet.exact target).isWithin bound
  | .name n => (ctx.implicitField? n).isNone &&
    (types n).all fun type => (ConstraintSet.ofDeclared ctx.hierarchy type).isWithin bound
  | .this none => (ctx.thisSet ctx.current).isWithin bound
  | .literal l => l.value.set.isWithin bound
  | .binary op _ _ => op != "+" || (ConstraintSet.exact Descriptor.stringName).isWithin bound
  | .assign _ value => Expr.isWithin ctx types bound value
  | .cast type _ => (ctx.bind type).referenceName? != some Descriptor.objectName &&
    (ctx.setOf (ctx.bind type)).isWithin bound
  | .conditional _ yes no => Expr.isWithin ctx types bound yes && Expr.isWithin ctx types bound no
  | .switch _ _ values => Expr.allWithin ctx types bound values
  | .instanceOf .. | .arrayNew .. | .lambda .. | .methodRef .. | .other .. => true
  | .call .. | .fieldAccess .. | .this (some _) | .super | .arrayAccess .. => false

def Expr.allWithin (ctx : BodyContext) (types : LocalTypes) (bound : ConstraintSet) :
    List Expr → Bool
  | [] => true
  | e :: es => Expr.isWithin ctx types bound e && Expr.allWithin ctx types bound es

end

/-- What the text says of the expression is true of the value. -/
def Expr.Bounds (ctx : BodyContext) (types : LocalTypes) (e : Expr) (v : Value) : Prop :=
  ∀ bound, e.isWithin ctx types bound → v.set.isWithin bound

theorem Expr.Bounds.of_types_eq_empty {ctx : BodyContext} {types : LocalTypes} {e : Expr}
    {v : Value} (hv : v.set.types = ∅) : e.Bounds ctx types v :=
  fun _ _ => ConstraintSet.isWithin_of_types_eq_empty hv

mutual

/-- Locals are declared with the types of the table, and assigned what these allow. -/
def Expr.conforms (ctx : BodyContext) (types : LocalTypes) : Expr → Bool
  | .new _ args _ _ => Expr.allConform ctx types args
  | .call receiver _ args _ =>
    Expr.allConform ctx types args && Receiver.conforms ctx types receiver
  | .fieldAccess receiver _ => Expr.conforms ctx types receiver
  | .name _ | .this _ | .super | .literal _ => true
  | .binary _ left right => Expr.conforms ctx types left && Expr.conforms ctx types right
  | .instanceOf value type binding => Expr.conforms ctx types value && binding.all fun name =>
    types name = some (some (ctx.bind type)) &&
      (ctx.bind type).referenceName? != some Descriptor.objectName
  | .assign target value =>
    Expr.conforms ctx types target && Expr.conforms ctx types value &&
      target.assigned?.all fun name => (types name).all fun type =>
        value.isWithin ctx types (.ofDeclared ctx.hierarchy type)
  | .cast _ value => Expr.conforms ctx types value
  | .conditional condition yes no =>
    Expr.conforms ctx types condition && Expr.conforms ctx types yes && Expr.conforms ctx types no
  | .arrayAccess array index => Expr.conforms ctx types array && Expr.conforms ctx types index
  | .arrayNew _ elements => Expr.allConform ctx types elements
  | .lambda params body =>
    ctx.declares types params && Stmt.allConform { ctx with inLambda := true } types body
  | .switch selector body values =>
    Expr.conforms ctx types selector && Stmt.allConform ctx types body &&
      Expr.allConform ctx types values
  | .methodRef receiver _ => Expr.conforms ctx types receiver
  | .other parts => Expr.allConform ctx types parts

def Expr.allConform (ctx : BodyContext) (types : LocalTypes) : List Expr → Bool
  | [] => true
  | e :: es => Expr.conforms ctx types e && Expr.allConform ctx types es

def Receiver.conforms (ctx : BodyContext) (types : LocalTypes) : Receiver → Bool
  | .implicit | .super | .qualifiedSuper _ => true
  | .expr e => Expr.conforms ctx types e

def Stmt.conforms (ctx : BodyContext) (types : LocalTypes) : Stmt → Bool
  | .localVar name type none => types name = some (ctx.declaredType type)
  | .localVar name type (some init) =>
    Expr.conforms ctx types init && !type.isInferred && types name = some (ctx.declaredType type) &&
      init.isWithin ctx types (.ofDeclared ctx.hierarchy (ctx.declaredType type))
  | .forEach name type iterable =>
    Expr.conforms ctx types iterable && !type.isInferred &&
      types name = some (ctx.declaredType type)
  | .expr e => Expr.conforms ctx types e
  | .ret none => true
  | .ret (some e) => Expr.conforms ctx types e
  | .ctorCall _ args _ => Expr.allConform ctx types args

def Stmt.allConform (ctx : BodyContext) (types : LocalTypes) : List Stmt → Bool
  | [] => true
  | s :: ss => Stmt.conforms ctx types s && Stmt.allConform ctx types ss

end

theorem Stmt.allConform_iff {ctx : BodyContext} {types : LocalTypes} {ss : List Stmt} :
    Stmt.allConform ctx types ss ↔ ∀ s ∈ ss, s.conforms ctx types := by
  induction ss with
  | nil => simp [Stmt.allConform]
  | cons s ss ih => simp [Stmt.allConform, ih]

theorem Stmt.allConform_append {ctx : BodyContext} {types : LocalTypes} {ss rest : List Stmt} :
    Stmt.allConform ctx types (ss ++ rest) ↔
      Stmt.allConform ctx types ss ∧ Stmt.allConform ctx types rest := by
  simp only [Stmt.allConform_iff, List.forall_mem_append]

def TypeDecl.initStatements (decl : TypeDecl) (isStatic : Bool) : List Stmt :=
  ((decl.fields.filter (·.isStatic == isStatic)).filterMap fun f => f.init.map .expr) ++
    (decl.initializers.filter (·.isStatic == isStatic)).flatMap (·.body)

def Body.statements (b : Body) : List Stmt :=
  let decl := b.source.decl
  match b.kind with
  | .declared index =>
    match decl.methods[index]? with
    | some m =>
      (if m.kind = .constructor then decl.initStatements false else []) ++ m.body.getD []
    | none => []
  | .defaultConstructor => decl.initStatements false
  | .staticInit => decl.initStatements true

/-! ### States and steps -/

namespace WalkState

variable {h : Hierarchy} {types : LocalTypes} {s : WalkState} {name : String}

def Conforms (h : Hierarchy) (types : LocalTypes) (s : WalkState) : Prop :=
  ∀ (name : String) (l : Local), s.locals[name]? = some l →
    types name = some l.type ∧ l.set.isWithin (.ofDeclared h l.type)

theorem Conforms.declare (hs : s.Conforms h types) {l : Local} (htype : types name = some l.type)
    (hset : l.set.isWithin (.ofDeclared h l.type)) : (s.declare name l).Conforms h types := by
  intro other known hknown
  rw [WalkState.declare, Std.ExtTreeMap.getElem?_insertIfNew] at hknown
  split at hknown
  · next hnew =>
    obtain rfl := Std.LawfulEqOrd.eq_of_compare hnew.1
    cases hknown
    exact ⟨htype, hset⟩
  · exact hs other known hknown

theorem Conforms.assign? {t : WalkState} {set : ConstraintSet} (hs : s.Conforms h types)
    (ht : s.assign? name set = some t)
    (hset : ∀ type, types name = some type → set.isWithin (.ofDeclared h type)) :
    t.Conforms h types := by
  obtain ⟨l, hl, rfl⟩ := Option.map_eq_some_iff.mp ht
  obtain ⟨htype, hheld⟩ := hs name l hl
  exact forall_getElem?_insert hs ⟨htype, ConstraintSet.isWithin_union hheld (hset _ htype)⟩

theorem Conforms.assign {set : ConstraintSet} (hs : s.Conforms h types)
    (hset : ∀ type, types name = some type → set.isWithin (.ofDeclared h type)) :
    (s.assign name set).Conforms h types := by
  rw [WalkState.assign]
  cases ht : s.assign? name set with
  | none => exact hs
  | some t => exact hs.assign? ht hset

theorem Conforms.declareParams {ctx : BodyContext} {params : List Param}
    (hs : s.Conforms ctx.hierarchy types) (hparams : ctx.declares types params) :
    (ctx.declareParams s params).Conforms ctx.hierarchy types := by
  induction params generalizing s with
  | nil => exact hs
  | cons p params ih =>
    simp only [BodyContext.declares, List.all_cons, Bool.and_eq_true, decide_eq_true_eq] at hparams
    refine ih (hs.declare ?_ ?_) hparams.2
    · rw [hparams.1, BodyContext.declaredType, BodyContext.localOf]
      split <;> rfl
    · rw [BodyContext.localOf]
      split
      · exact ConstraintSet.isWithin_of_types_eq_empty rfl
      · exact ConstraintSet.isWithin_rfl

end WalkState

namespace Walk

variable {h : Hierarchy} {types : LocalTypes} {α β : Type} {post : α → Prop} {x : Walk α}

/-- The walk lets the locals hold only what their types allow, and the value that it leaves is as
`post` says. -/
def Conforms (h : Hierarchy) (types : LocalTypes) (post : α → Prop) (x : Walk α) : Prop :=
  ∀ (answers : Question → Option (Option ConstraintSet)) (s t : WalkState) (a : α),
    ends answers x s = some (a, t) → s.Conforms h types → t.Conforms h types ∧ post a

/-- A walk without events leaves the locals as they are. -/
theorem Composed.locals_eq {events : List NameEvent} (hx : Composed events x) (hnone : events = [])
    {answers : Question → Option (Option ConstraintSet)} {s t : WalkState} {a : α}
    (hends : ends answers x s = some (a, t)) : t.locals = s.locals := by
  induction hx generalizing s t with
  | pure b =>
    cases hends
    rfl
  | bind _ _ hx hf =>
    obtain ⟨hfirst, hrest⟩ := List.append_eq_nil_iff.mp hnone
    rw [ends_bind, Option.bind_eq_some_iff] at hends
    obtain ⟨⟨b, u⟩, hu, ht⟩ := hends
    exact (hf b hrest ht).trans (hx hfirst hu)
  | question q =>
    rw [ends_question, Option.map_eq_some_iff] at hends
    obtain ⟨answer, -, heq⟩ := hends
    cases heq
    rfl
  | look => cases hnone
  | assignName => cases hnone
  | declare => cases hnone
  | declareAssign => cases hnone
  | note hf =>
    cases hends
    rfl

namespace Conforms

theorem pure {a : α} (ha : post a) : Conforms h types post (Pure.pure a : Walk α) := by
  intro answers s t b ht hs
  cases ht
  exact ⟨hs, ha⟩

theorem bind {after : β → Prop} {f : α → Walk β} (hx : Conforms h types post x)
    (hf : ∀ a, post a → Conforms h types after (f a)) : Conforms h types after (x >>= f) := by
  intro answers s u b hu hs
  rw [ends_bind, Option.bind_eq_some_iff] at hu
  obtain ⟨⟨a, t⟩, ht, hu⟩ := hu
  obtain ⟨ht, ha⟩ := hx answers s t a ht hs
  exact hf a ha answers t u b hu ht

theorem mono {after : α → Prop} (hx : Conforms h types post x) (hpost : ∀ a, post a → after a) :
    Conforms h types after x := fun answers s t a ht hs =>
  (hx answers s t a ht hs).imp_right (hpost a)

theorem discard (hx : Conforms h types post x) :
    Conforms h types (fun _ => True) (discard x) :=
  hx.bind fun _ _ => .pure trivial

theorem silent (hx : Composed [] x) : Conforms h types (fun _ => True) x := by
  intro answers s t a ht hs
  refine ⟨fun name l hl => hs name l ?_, trivial⟩
  rwa [hx.locals_eq rfl ht] at hl

theorem modify {f : WalkState → WalkState}
    (hf : ∀ s : WalkState, s.Conforms h types → (f s).Conforms h types) :
    Conforms h types (fun _ => True) (modify f : Walk Unit) := by
  intro answers s t a ht hs
  cases ht
  exact ⟨hf s hs, trivial⟩

theorem forM {f : α → Walk PUnit} {l : List α}
    (hf : ∀ a ∈ l, Conforms h types (fun _ => True) (f a)) :
    Conforms h types (fun _ => True) (l.forM f) := by
  induction l with
  | nil => exact .pure trivial
  | cons a l ih =>
    refine (hf a List.mem_cons_self).bind fun _ _ => ih fun b hb => ?_
    exact hf b (List.mem_cons_of_mem a hb)

end Conforms

theorem conforms_declareAssign {name : String} {type : Option StaticType} {set : ConstraintSet}
    (htype : types name = some type) (hset : set.isWithin (.ofDeclared h type)) :
    Conforms h types (fun _ => True)
      (modify fun s => (s.declareLocal name type).assign name set : Walk Unit) := by
  refine .modify fun s hs => ?_
  have hnew : (s.declareLocal name type).Conforms h types :=
    hs.declare htype (ConstraintSet.isWithin_of_types_eq_empty rfl)
  refine hnew.assign fun other hother => ?_
  cases htype.symm.trans hother
  exact hset

end Walk

/-! ### Values -/

theorem Value.isWithin_binary {op : String} {v w : Value} {bound : ConstraintSet}
    (h : op != "+" || (ConstraintSet.exact Descriptor.stringName).isWithin bound) :
    (Value.binary op v w).set.isWithin bound := by
  unfold binary
  split
  · next hplus =>
    simp only [Bool.and_eq_true, beq_iff_eq] at hplus
    have hstring : (ConstraintSet.exact Descriptor.stringName).isWithin bound := by
      simpa [hplus.1] using h
    exact hstring
  · refine ConstraintSet.isWithin_of_types_eq_empty ?_
    split
    · rfl
    · split
      · split <;> rfl
      · split <;> rfl

namespace BodyContext

open Walk

variable (ctx : BodyContext) {types : LocalTypes} {nodes : List TypeNode} {policy : CyclePolicy}

theorem isWithin_localValue {l : Local} {bound : ConstraintSet}
    (hl : l.set.isWithin (.ofDeclared ctx.hierarchy l.type))
    (htype : (ConstraintSet.ofDeclared ctx.hierarchy l.type).isWithin bound) :
    (ctx.localValue l).set.isWithin bound := by
  have hset := ConstraintSet.isWithin_trans hl htype
  unfold localValue
  split
  · next type heq =>
    dsimp only [Value.ofType]
    split
    · rw [heq] at htype
      exact ConstraintSet.isWithin_union hset htype
    · exact hset
  · exact hset

theorem isWithin_anyOf {vs : List Value} {bound : ConstraintSet}
    (h : ∀ v ∈ vs, v.set.isWithin bound) : (anyOf vs).set.isWithin bound := by
  have hfold (ws : List Value) (hws : ∀ w ∈ ws, w.set.isWithin bound) (set : ConstraintSet)
      (hset : set.isWithin bound) :
      (ws.foldl (fun set w => set ∪ w.set) set).isWithin bound := by
    induction ws generalizing set with
    | nil => exact hset
    | cons w ws ih =>
      refine ih (fun w' hw' => hws w' (List.mem_cons_of_mem w hw')) _ ?_
      exact ConstraintSet.isWithin_union hset (hws w List.mem_cons_self)
  cases vs with
  | nil => exact ConstraintSet.isWithin_of_types_eq_empty rfl
  | cons v vs =>
    exact hfold vs (fun w hw => h w (List.mem_cons_of_mem v hw)) _ (h v List.mem_cons_self)

theorem conforms_name (name : String) :
    Conforms ctx.hierarchy types ((Expr.name name).Bounds ctx types) (ctx.expr (.name name)) := by
  intro answers s t v ht hs
  simp only [Expr.Bounds, Expr.isWithin, Bool.and_eq_true, Option.isNone_iff_eq_none]
  cases hl : s.locals[name]? with
  | some l =>
    rw [ctx.ends_name_of_some hl] at ht
    cases ht
    obtain ⟨htype, hset⟩ := hs name l hl
    refine ⟨hs, fun bound hbound => ctx.isWithin_localValue hset ?_⟩
    simpa [htype] using hbound.2
  | none =>
    -- Before its declaration a name stands for a field, a type or a package. Only fields hold
    -- objects.
    have hget : ends answers MonadState.get s = some (s, s) := rfl
    rw [expr, nameValue, ends_bind, hget, Option.bind_some, hl] at ht
    dsimp only at ht
    split at ht
    · next field hfield =>
      have hkept := (Conforms.silent (ctx.composed_fieldValue field none)) answers s t v ht hs
      refine ⟨hkept.1, fun bound hbound => ?_⟩
      simp [hfield] at hbound
    · split at ht
      · cases ht
        exact ⟨hs, fun bound _ => ConstraintSet.isWithin_of_types_eq_empty rfl⟩
      · cases ht
        exact ⟨hs, fun bound _ => ConstraintSet.isWithin_of_types_eq_empty rfl⟩

theorem conforms_assignName {name : String} {v : Value}
    (hv : ∀ type, types name = some type → v.set.isWithin (.ofDeclared ctx.hierarchy type)) :
    Conforms ctx.hierarchy types (fun _ => True) (ctx.assignName name v) := by
  intro answers s t a ht hs
  cases hassign : s.assign? name v.set with
  | none =>
    rw [ctx.ends_assignName_of_none hassign] at ht
    exact Conforms.silent (composed_writeTo _ v) answers s t a ht hs
  | some u =>
    rw [ctx.ends_assignName_of_some hassign] at ht
    cases ht
    exact ⟨hs.assign? hassign hv, trivial⟩

/-! ### Syntax -/

mutual

theorem conforms_expr (ctx : BodyContext) (hb : Hierarchy.build nodes policy = .ok ctx.hierarchy) :
    (e : Expr) → e.conforms ctx types →
      Conforms ctx.hierarchy types (e.Bounds ctx types) (ctx.expr e)
  | .new type args bodyType line, h => by
    rw [Expr.conforms] at h
    rw [expr]
    refine (conforms_exprs ctx hb args h).bind fun vs _ => ?_
    dsimp only
    split
    · exact .pure (.of_types_eq_empty rfl)
    · next target htarget =>
      refine (Conforms.silent (ctx.composed_callConstructor target vs)).bind fun _ _ => ?_
      exact .pure fun bound hbound => by rwa [Expr.isWithin, htarget] at hbound
  | .call receiver name args line, h => by
    rw [Expr.conforms, Bool.and_eq_true] at h
    rw [expr]
    refine (conforms_exprs ctx hb args h.1).bind fun vs _ => ?_
    refine (conforms_siteReceivers ctx hb name receiver h.2).bind fun rs _ => ?_
    refine (Conforms.silent (Composed.foldlM (ctx.composed_callOn name vs) none rs)).bind
      fun _ _ => .pure fun bound hbound => ?_
    cases hbound
  | .fieldAccess receiver name, h => by
    rw [Expr.conforms] at h
    have hreceiver := conforms_expr ctx hb receiver h
    rw [expr.eq_def]
    dsimp only
    split
    · refine (Conforms.silent (ctx.composed_superFieldValue name)).mono ?_
      exact fun v _ bound hbound => by cases hbound
    · refine hreceiver.bind fun v _ => (Conforms.silent (ctx.composed_memberValue v name)).mono ?_
      exact fun v _ bound hbound => by cases hbound
  | .name name, _ => ctx.conforms_name name
  | .this none, _ => by
    rw [expr]
    exact .pure fun bound hbound => by rwa [Expr.isWithin] at hbound
  | .this (some qualifier), _ => by
    rw [expr]
    split
    · exact .pure fun bound hbound => by cases hbound
    · exact .pure fun bound hbound => by cases hbound
  | .super, _ => by
    rw [expr]
    split
    · exact .pure fun bound hbound => by cases hbound
    · exact .pure fun bound hbound => by cases hbound
  | .literal l, _ => by
    rw [expr]
    exact .pure fun bound hbound => by rwa [Expr.isWithin] at hbound
  | .binary op left right, h => by
    rw [Expr.conforms, Bool.and_eq_true] at h
    rw [expr]
    refine (conforms_expr ctx hb left h.1).bind fun v _ => ?_
    refine (conforms_expr ctx hb right h.2).bind fun w _ => .pure fun bound hbound => ?_
    rw [Expr.isWithin] at hbound
    exact Value.isWithin_binary hbound
  | .instanceOf value type binding, h => by
    rw [Expr.conforms, Bool.and_eq_true] at h
    rw [expr]
    refine (conforms_expr ctx hb value h.1).bind fun v _ => ?_
    cases binding with
    | none => exact .pure (.of_types_eq_empty rfl)
    | some name =>
      simp only [Option.all_some, Bool.and_eq_true, decide_eq_true_eq, bne_iff_ne] at h
      refine (conforms_declareAssign h.2.1 (ConstraintSet.isWithin_narrow hb h.2.2)).bind
        fun _ _ => .pure (.of_types_eq_empty rfl)
  | .assign target value, h => by
    rw [Expr.conforms, Bool.and_eq_true, Bool.and_eq_true] at h
    obtain ⟨⟨htarget, hvalue⟩, hassigned⟩ := h
    have hevaluate := conforms_expr ctx hb target htarget
    rw [expr.eq_def]
    dsimp only
    refine (conforms_expr ctx hb value hvalue).bind fun v hv => ?_
    have hwhole : (Expr.assign target value).Bounds ctx types v := fun bound hbound =>
      hv bound (by rwa [Expr.isWithin] at hbound)
    split
    · next name =>
      refine (ctx.conforms_assignName fun type htype => hv _ ?_).bind fun _ _ => .pure hwhole
      simpa [Expr.assigned?, htype] using hassigned
    · exact (Conforms.silent (composed_writeTo _ v)).bind fun _ _ => .pure hwhole
    · next receiver name _ =>
      rw [Expr.conforms] at htarget
      refine (conforms_expr ctx hb receiver htarget).bind fun r _ => ?_
      exact (Conforms.silent (composed_writeTo _ v)).bind fun _ _ => .pure hwhole
    · exact hevaluate.discard.bind fun _ _ => .pure hwhole
  | .cast type value, h => by
    rw [Expr.conforms] at h
    rw [expr]
    refine (conforms_expr ctx hb value h).bind fun v _ => .pure fun bound hbound => ?_
    simp only [Expr.isWithin, Bool.and_eq_true, bne_iff_ne] at hbound
    obtain ⟨htarget, hbound⟩ := hbound
    dsimp only [Value.ofType]
    split
    · exact ConstraintSet.isWithin_of_types_eq_empty rfl
    · exact ConstraintSet.isWithin_trans (ConstraintSet.isWithin_narrow hb htarget) hbound
  | .conditional condition yes no, h => by
    rw [Expr.conforms, Bool.and_eq_true, Bool.and_eq_true] at h
    rw [expr]
    refine (conforms_expr ctx hb condition h.1.1).discard.bind fun _ _ => ?_
    refine (conforms_expr ctx hb yes h.1.2).bind fun v hv => ?_
    refine (conforms_expr ctx hb no h.2).bind fun w hw => .pure fun bound hbound => ?_
    rw [Expr.isWithin, Bool.and_eq_true] at hbound
    exact ConstraintSet.isWithin_union (hv bound hbound.1) (hw bound hbound.2)
  | .arrayAccess array index, h => by
    rw [Expr.conforms, Bool.and_eq_true] at h
    rw [expr]
    refine (conforms_expr ctx hb array h.1).bind fun v _ => ?_
    refine (conforms_expr ctx hb index h.2).discard.bind fun _ _ => ?_
    split
    · exact .pure fun bound hbound => by cases hbound
    · exact .pure fun bound hbound => by cases hbound
  | .arrayNew type elements, h => by
    rw [Expr.conforms] at h
    rw [expr]
    refine (conforms_exprs ctx hb elements h).discard.bind fun _ _ => ?_
    exact .pure (.of_types_eq_empty rfl)
  | .lambda params body, h => by
    rw [Expr.conforms, Bool.and_eq_true] at h
    rw [expr]
    refine (Conforms.modify fun s hs => hs.declareParams h.1).bind fun _ _ => ?_
    refine (conforms_stmts { ctx with inLambda := true } hb body h.2).bind fun _ _ => ?_
    exact .pure (.of_types_eq_empty rfl)
  | .switch selector body values, h => by
    rw [Expr.conforms, Bool.and_eq_true, Bool.and_eq_true] at h
    rw [expr]
    refine (conforms_expr ctx hb selector h.1.1).discard.bind fun _ _ => ?_
    refine (conforms_stmts ctx hb body h.1.2).bind fun _ _ => ?_
    refine (conforms_exprs ctx hb values h.2).bind fun vs hvs => .pure fun bound hbound => ?_
    rw [Expr.isWithin] at hbound
    exact isWithin_anyOf (hvs bound hbound)
  | .methodRef receiver name, h => by
    rw [Expr.conforms] at h
    rw [expr]
    refine (conforms_expr ctx hb receiver h).bind fun v _ => ?_
    refine (Conforms.silent (ctx.composed_methodReference v name)).bind fun _ _ => ?_
    exact .pure (.of_types_eq_empty rfl)
  | .other parts, h => by
    rw [Expr.conforms] at h
    rw [expr]
    refine (conforms_exprs ctx hb parts h).discard.bind fun _ _ => ?_
    exact .pure (.of_types_eq_empty rfl)
termination_by e => sizeOf e

theorem conforms_exprs (ctx : BodyContext) (hb : Hierarchy.build nodes policy = .ok ctx.hierarchy) :
    (es : List Expr) → Expr.allConform ctx types es → Conforms ctx.hierarchy types
      (fun vs => ∀ bound, Expr.allWithin ctx types bound es → ∀ v ∈ vs, v.set.isWithin bound)
      (ctx.exprs es)
  | [], _ => by
    rw [exprs]
    exact .pure (by simp)
  | e :: es, h => by
    rw [Expr.allConform, Bool.and_eq_true] at h
    rw [exprs]
    refine (conforms_expr ctx hb e h.1).bind fun v hv => ?_
    refine (conforms_exprs ctx hb es h.2).bind fun vs hvs => .pure fun bound hbound => ?_
    rw [Expr.allWithin, Bool.and_eq_true] at hbound
    exact List.forall_mem_cons.mpr ⟨hv bound hbound.1, hvs bound hbound.2⟩
termination_by es => sizeOf es

theorem conforms_siteReceivers (ctx : BodyContext)
    (hb : Hierarchy.build nodes policy = .ok ctx.hierarchy) (name : String) :
    (r : Receiver) → r.conforms ctx types →
      Conforms ctx.hierarchy types (fun _ => True) (ctx.siteReceivers name r)
  | .implicit, _ => by
    rw [siteReceivers]
    exact .pure trivial
  | .super, _ => by
    rw [siteReceivers]
    exact .pure trivial
  | .qualifiedSuper qualifier, _ => by
    rw [siteReceivers]
    exact .pure trivial
  | .expr e, h => by
    rw [Receiver.conforms] at h
    rw [siteReceivers]
    exact (conforms_expr ctx hb e h).bind fun _ _ => .pure trivial
termination_by r => sizeOf r

theorem conforms_stmt (ctx : BodyContext) (hb : Hierarchy.build nodes policy = .ok ctx.hierarchy) :
    (s : Stmt) → s.conforms ctx types →
      Conforms ctx.hierarchy types (fun _ => True) (ctx.stmt s)
  | .localVar name type none, h => by
    rw [Stmt.conforms, decide_eq_true_eq] at h
    rw [stmt]
    exact .modify fun s hs => hs.declare h (ConstraintSet.isWithin_of_types_eq_empty rfl)
  | .localVar name type (some init), h => by
    simp only [Stmt.conforms, Bool.and_eq_true, Bool.not_eq_true', decide_eq_true_eq] at h
    obtain ⟨⟨⟨hinit, hwritten⟩, htype⟩, hbound⟩ := h
    rw [stmt]
    refine (conforms_expr ctx hb init hinit).bind fun v hv => ?_
    -- A type that is written out does not depend on the value.
    have hset := hv _ hbound
    simp only [declaredType, hwritten] at htype hset ⊢
    exact conforms_declareAssign htype hset
  | .forEach name type iterable, h => by
    simp only [Stmt.conforms, Bool.and_eq_true, Bool.not_eq_true', decide_eq_true_eq] at h
    obtain ⟨⟨hiterable, hwritten⟩, htype⟩ := h
    rw [stmt]
    refine (conforms_expr ctx hb iterable hiterable).bind fun v _ => ?_
    simp only [declaredType, hwritten] at htype ⊢
    exact conforms_declareAssign htype ConstraintSet.isWithin_rfl
  | .expr e, h => by
    rw [Stmt.conforms] at h
    rw [stmt]
    exact (conforms_expr ctx hb e h).discard
  | .ret none, _ => by
    rw [stmt]
    exact .pure trivial
  | .ret (some e), h => by
    rw [Stmt.conforms] at h
    rw [stmt]
    refine (conforms_expr ctx hb e h).bind fun v _ => ?_
    split
    · exact .pure trivial
    · exact .silent (.note (BodySummary.adds_addReturn v.set))
  | .ctorCall target args line, h => by
    rw [Stmt.conforms] at h
    rw [stmt]
    refine (conforms_exprs ctx hb args h).bind fun vs _ => ?_
    cases target with
    | this => exact .silent (ctx.composed_callConstructor _ vs)
    | super =>
      dsimp only
      split
      · exact .silent (ctx.composed_callConstructor _ vs)
      · exact .pure trivial
termination_by s => sizeOf s

theorem conforms_stmts (ctx : BodyContext) (hb : Hierarchy.build nodes policy = .ok ctx.hierarchy) :
    (ss : List Stmt) → Stmt.allConform ctx types ss →
      Conforms ctx.hierarchy types (fun _ => True) (ctx.stmts ss)
  | [], _ => by
    rw [stmts]
    exact .pure trivial
  | s :: ss, h => by
    rw [Stmt.allConform, Bool.and_eq_true] at h
    rw [stmts]
    exact (conforms_stmt ctx hb s h.1).bind fun _ _ => conforms_stmts ctx hb ss h.2
termination_by ss => sizeOf ss

end

/-! ### Bodies -/

theorem conforms_initialise (hb : Hierarchy.build nodes policy = .ok ctx.hierarchy)
    {decl : TypeDecl} {isStatic : Bool}
    (h : Stmt.allConform ctx types (decl.initStatements isStatic)) :
    Conforms ctx.hierarchy types (fun _ => True) (ctx.initialise decl isStatic) := by
  obtain ⟨hfields, hblocks⟩ := Stmt.allConform_append.mp h
  rw [Stmt.allConform_iff] at hfields hblocks
  refine (Conforms.forM fun f hf => ?_).bind fun _ _ => .forM fun block hblock => ?_
  · unfold initField
    cases hinit : f.init with
    | none => exact .pure trivial
    | some init =>
      have hmem : Stmt.expr init ∈ (decl.fields.filter (·.isStatic == isStatic)).filterMap
          fun f => f.init.map .expr :=
        List.mem_filterMap.mpr ⟨f, hf, by rw [hinit, Option.map_some]⟩
      have hconforms := hfields _ hmem
      rw [Stmt.conforms] at hconforms
      refine (conforms_expr ctx hb init hconforms).bind fun v _ => ?_
      exact .silent (composed_writeTo _ v)
  · refine conforms_stmts ctx hb block.body (Stmt.allConform_iff.mpr fun s hs => ?_)
    exact hblocks s (List.mem_flatMap.mpr ⟨block, hblock, hs⟩)

theorem conforms_constructorPass (hb : Hierarchy.build nodes policy = .ok ctx.hierarchy)
    {decl : TypeDecl} {body : List Stmt}
    (hinit : Stmt.allConform ctx types (decl.initStatements false))
    (hbody : Stmt.allConform ctx types body) :
    Conforms ctx.hierarchy types (fun _ => True) (ctx.constructorPass decl body) := by
  unfold constructorPass
  split
  · rw [Stmt.allConform, Bool.and_eq_true] at hbody
    refine (conforms_stmt ctx hb _ hbody.1).bind fun _ _ => ?_
    split
    · exact (ctx.conforms_initialise hb hinit).bind fun _ _ => conforms_stmts ctx hb _ hbody.2
    · exact conforms_stmts ctx hb _ hbody.2
  · refine (Conforms.silent (ctx.composed_implicitSuper decl)).bind fun _ _ => ?_
    exact (ctx.conforms_initialise hb hinit).bind fun _ _ => conforms_stmts ctx hb _ hbody

end BodyContext

open BodyContext

theorem Body.conforms_passOf {p : Program} {b : Body} {ctx : BodyContext} {params : List Param}
    {pass : Walk Unit} {types : LocalTypes} {nodes : List TypeNode} {policy : CyclePolicy}
    (hb : Hierarchy.build nodes policy = .ok p.hierarchy)
    (h : passOf p b = some (ctx, params, pass)) (htext : Stmt.allConform ctx types b.statements) :
    Walk.Conforms p.hierarchy types (fun _ => True) pass := by
  unfold passOf at h
  unfold Body.statements at htext
  dsimp only at h htext
  cases hkind : b.kind with
  | declared index =>
    rw [hkind] at h htext
    obtain ⟨m, hm, h⟩ := Option.bind_eq_some_iff.mp h
    obtain ⟨body, hbody, h⟩ := Option.bind_eq_some_iff.mp h
    dsimp only at htext
    rw [hm] at htext
    dsimp only at htext
    rw [hbody, Option.getD_some, Stmt.allConform_append] at htext
    split at h
    · next hconstructor =>
      cases h
      rw [if_pos hconstructor] at htext
      exact conforms_constructorPass _ hb htext.1 htext.2
    · cases h
      exact conforms_stmts _ hb _ htext.2
  | defaultConstructor =>
    rw [hkind] at h htext
    cases h
    exact conforms_constructorPass _ hb htext rfl
  | staticInit =>
    rw [hkind] at h htext
    cases h
    exact conforms_initialise _ hb htext

/-- However often a body is walked whose text keeps to the types of its locals, no local holds
anything but what its type allows. -/
theorem BodyContext.conforms_passesUpTo {h : Hierarchy} {types : LocalTypes} {pass : Walk Unit}
    (hpass : Walk.Conforms h types (fun _ => True) pass) (passes : Nat) :
    Walk.Conforms h types (fun _ => True) (passesUpTo pass passes) := by
  induction passes with
  | zero => exact .pure trivial
  | succ passes ih =>
    intro answers s u a hu hs
    rw [passesUpTo, ends_passesThen_succ, Option.bind_eq_some_iff] at hu
    obtain ⟨⟨⟨⟩, t⟩, ht, hu⟩ := hu
    have ht := (hpass answers _ t () ht hs).1
    dsimp only at hu
    split at hu
    · exact ih answers t u a hu ht
    · cases hu
      exact ⟨ht, trivial⟩

end JavaCallGraph
