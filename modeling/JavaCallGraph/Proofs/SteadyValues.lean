import JavaCallGraph.Proofs.DispatchSets
import JavaCallGraph.Proofs.WalkSteps

/-!
# What does not depend on the locals

Three walks through the same statements: one to refer to, and two that start with more in their
locals. The value of an expression is fixed if it is the same in all three, and steady if it has
the same type. Where calls are made on locals or on fixed values and with steady arguments, the
walk that has the widest locals finds every method with a body that the other one finds.
-/

namespace JavaCallGraph

/-! ### Grades -/

/-- The types of the locals; nothing for other names. -/
abbrev LocalTypes := String → Option (Option StaticType)

/-- How much of the value of an expression is independent of what the locals hold. -/
inductive Grade where
  | loose
  /-- Its type, and whether it is an object at all. -/
  | steady
  | fixed
  deriving DecidableEq

namespace Grade

def isFixed (g : Grade) : Bool := g == fixed

def isSteady (g : Grade) : Bool := g != loose

def both (g h : Grade) : Grade :=
  if g.isFixed && h.isFixed then fixed else if g.isSteady && h.isSteady then steady else loose

end Grade

variable (types : LocalTypes)

mutual

def Expr.grade : Expr → Grade
  | .new _ _ _ _ => .fixed
  | .call receiver _ args _ =>
    if Expr.allSteady args && Receiver.isFixed receiver then .fixed else .loose
  | .fieldAccess receiver _ =>
    if (Expr.grade receiver).isFixed ||
        receiver.assigned?.any fun name => ((types name).join >>= StaticType.referenceName?).isSome
      then .fixed else .loose
  | .name name => if (types name).isSome then .steady else .fixed
  | .this _ | .super | .literal _ => .fixed
  | .binary _ left right =>
    if (Expr.grade left).isSteady && (Expr.grade right).isSteady then .fixed else .loose
  | .instanceOf _ _ _ => .fixed
  | .assign _ value => Expr.grade value
  | .cast _ value => if (Expr.grade value).isFixed then .fixed else .steady
  | .conditional _ yes no => (Expr.grade yes).both (Expr.grade no)
  | .arrayAccess array _ => if (Expr.grade array).isSteady then .fixed else .loose
  | .arrayNew _ _ | .lambda _ _ | .methodRef _ _ | .other _ => .fixed
  | .switch _ _ _ => .loose

def Expr.allSteady : List Expr → Bool
  | [] => true
  | e :: es => (Expr.grade e).isSteady && Expr.allSteady es

def Receiver.isFixed : Receiver → Bool
  | .implicit | .super | .qualifiedSuper _ => true
  | .expr e => (Expr.grade e).isFixed

end

def Expr.isHandle (e : Expr) : Bool :=
  (e.grade types).isFixed || e.assigned?.any fun name => (types name).isSome

mutual

def Expr.direct : Expr → Bool
  | .new _ args _ _ => Expr.allDirect args && Expr.allSteady types args
  | .call receiver _ args _ =>
    Expr.allDirect args && Expr.allSteady types args && Receiver.direct receiver
  | .fieldAccess receiver _ => Expr.direct receiver
  | .name _ | .this _ | .super | .literal _ => true
  | .binary _ left right => Expr.direct left && Expr.direct right
  | .instanceOf value _ _ => Expr.direct value
  | .assign target value => Expr.direct target && Expr.direct value
  | .cast _ value => Expr.direct value
  | .conditional condition yes no => Expr.direct condition && Expr.direct yes && Expr.direct no
  | .arrayAccess array index => Expr.direct array && Expr.direct index
  | .arrayNew _ elements => Expr.allDirect elements
  | .lambda _ body => Stmt.allDirect body
  | .switch selector body values =>
    Expr.direct selector && Stmt.allDirect body && Expr.allDirect values
  | .methodRef receiver _ => Expr.direct receiver && receiver.isHandle types
  | .other parts => Expr.allDirect parts

def Expr.allDirect : List Expr → Bool
  | [] => true
  | e :: es => Expr.direct e && Expr.allDirect es

def Receiver.direct : Receiver → Bool
  | .implicit | .super | .qualifiedSuper _ => true
  | .expr e => Expr.direct e && e.isHandle types

def Stmt.direct : Stmt → Bool
  | .localVar _ _ none => true
  | .localVar _ _ (some init) => Expr.direct init
  | .forEach _ _ iterable => Expr.direct iterable
  | .expr e => Expr.direct e
  | .ret none => true
  | .ret (some e) => Expr.direct e
  | .ctorCall _ args _ => Expr.allDirect args && Expr.allSteady types args

def Stmt.allDirect : List Stmt → Bool
  | [] => true
  | s :: ss => Stmt.direct s && Stmt.allDirect ss

end

namespace TypeDecl

def initDirect (decl : TypeDecl) (isStatic : Bool) : Bool :=
  ((decl.fields.filter (·.isStatic == isStatic)).all fun f => f.init.all (Expr.direct types)) &&
    (decl.initializers.filter (·.isStatic == isStatic)).all fun block =>
      Stmt.allDirect types block.body

def constructorDirect (decl : TypeDecl) : List Stmt → Bool
  | .ctorCall target args line :: rest =>
    Stmt.direct types (.ctorCall target args line) &&
      (target == .this || decl.initDirect types false) && Stmt.allDirect types rest
  | body => decl.initDirect types false && Stmt.allDirect types body

end TypeDecl

/-- All calls of the body are made on locals or on fixed values, and with steady arguments. -/
def Body.direct (b : Body) : Bool :=
  match b.kind with
  | .declared index =>
    match b.source.decl.methods[index]? with
    | some m =>
      if m.kind = .constructor then b.source.decl.constructorDirect types (m.body.getD [])
      else Stmt.allDirect types (m.body.getD [])
    | none => true
  | .defaultConstructor => b.source.decl.constructorDirect types []
  | .staticInit => b.source.decl.initDirect types true

variable {types}

structure Grade.Agree (g : Grade) (v w : Value) : Prop where
  eq : g.isFixed → w = v
  alike : g.isSteady → w.type = v.type ∧ w.kind = v.kind

namespace Grade

variable {g h : Grade} {v w v' w' : Value}

theorem Agree.of_eq (h : w = v) : g.Agree v w := ⟨fun _ => h, fun _ => by simp [h]⟩

theorem Agree.of_alike (h : w.type = v.type ∧ w.kind = v.kind) : steady.Agree v w :=
  ⟨nofun, fun _ => h⟩

theorem agree_loose (v w : Value) : loose.Agree v w := ⟨nofun, nofun⟩

/-- Whatever depends on the types of two steady values only is fixed. -/
theorem agree_ite {c : Prop} [Decidable c] (h : c → w = v) :
    (if c then fixed else loose : Grade).Agree v w := by
  split
  · next hc => exact .of_eq (h hc)
  · exact agree_loose v w

theorem Agree.both (hv : g.Agree v w) (hv' : h.Agree v' w') {f : Value → Value → Value}
    (halike : v.type = w.type → v.kind = w.kind → v'.type = w'.type → v'.kind = w'.kind →
      (f w w').type = (f v v').type ∧ (f w w').kind = (f v v').kind) :
    (g.both h).Agree (f v v') (f w w') := by
  unfold Grade.both
  split
  · next hfixed =>
    rw [Bool.and_eq_true] at hfixed
    exact .of_eq (by rw [hv.eq hfixed.1, hv'.eq hfixed.2])
  · split
    · next hsteady =>
      rw [Bool.and_eq_true] at hsteady
      obtain ⟨htype, hkind⟩ := hv.alike hsteady.1
      obtain ⟨htype', hkind'⟩ := hv'.alike hsteady.2
      exact .of_alike (halike htype.symm hkind.symm htype'.symm hkind'.symm)
    · exact agree_loose _ _

end Grade

/-! ### Three walks -/

namespace WalkState

variable {s t u : WalkState}

/-- The locals of the state are those of the table, with the types that it gives. -/
def HasTypes (types : LocalTypes) (s : WalkState) : Prop :=
  ∀ name, s.locals[name]?.map Local.type = types name

theorem HasTypes.exists_local (h : s.HasTypes types) {name : String} (hname : (types name).isSome) :
    ∃ l, s.locals[name]? = some l ∧ types name = some l.type := by
  rw [← h name, Option.isSome_map] at hname
  obtain ⟨l, hl⟩ := Option.isSome_iff_exists.mp hname
  exact ⟨l, hl, by rw [← h name, hl]; rfl⟩

theorem HasTypes.getElem?_eq_none (h : s.HasTypes types) {name : String}
    (hname : types name = none) : s.locals[name]? = none := by
  rw [← h name, Option.map_eq_none_iff] at hname
  exact hname

/-- Locals keep their types. -/
theorem type_of_extends (hst : s.Extends t)
    (hnames : ∀ name, name ∈ t.locals → name ∈ s.locals) (name : String) :
    t.locals[name]?.map Local.type = s.locals[name]?.map Local.type := by
  cases hs : s.locals[name]? with
  | some l =>
    obtain ⟨l', hl', hle⟩ := hst.locals name l hs
    rw [hl']
    exact congrArg some hle.1.symm
  | none =>
    have hnot : name ∉ t.locals := fun hmem => by
      have := Std.ExtTreeMap.mem_iff_isSome_getElem?.mp (hnames name hmem)
      simp [hs] at this
    rw [Std.ExtTreeMap.getElem?_eq_none hnot]

theorem HasTypes.of_extends (h : s.HasTypes types) (hst : s.Extends t)
    (hnames : ∀ name, name ∈ t.locals → name ∈ s.locals) : t.HasTypes types :=
  fun name => (type_of_extends hst hnames name).trans (h name)

/-- Every local of the second state has a counterpart in the first one that is open, and holds only
what that one holds or what its type allows. -/
def Admits (h : Hierarchy) (wide s : WalkState) : Prop :=
  ∀ (name : String) (l : Local), s.locals[name]? = some l →
    ∃ l', wide.locals[name]? = some l' ∧ l'.set.unresolved ∧
      ∀ t ∈ l.set.types, t ∈ l'.set.types ∨
        ∃ type, l.type = some type ∧ t ∈ (ConstraintSet.ofType h type).types

theorem Admits.of_locals {h : Hierarchy} {wide : WalkState} (hadmits : wide.Admits h t)
    (hst : ∀ (name : String) (l : Local), s.locals[name]? = some l →
      ∃ l', t.locals[name]? = some l' ∧ l ≤ l') : wide.Admits h s := by
  intro name l hl
  obtain ⟨l', hl', hle⟩ := hst name l hl
  obtain ⟨open', hopen', hunresolved, htypes⟩ := hadmits name l' hl'
  refine ⟨open', hopen', hunresolved, fun t ht => ?_⟩
  rw [hle.1]
  exact htypes t (hle.2.1.1 t ht)

theorem Admits.extends {h : Hierarchy} {wide wide' : WalkState} (hadmits : wide.Admits h s)
    (hwide : wide.Extends wide') : wide'.Admits h s := by
  intro name l hl
  obtain ⟨open', hopen', hunresolved, htypes⟩ := hadmits name l hl
  obtain ⟨more, hmore, hle⟩ := hwide.locals name open' hopen'
  exact ⟨more, hmore, hle.2.1.2 hunresolved, fun t ht => (htypes t ht).imp_left (hle.2.1.1 t)⟩

end WalkState

def TypeIndex.HasAbstract (x : TypeIndex) (s : Signature) : Prop :=
  ∃ m, x.catalog.Lists m ∧ m.signature = s ∧ m.isAbstract

/-- The answers that three walks through the same statements get. What is answered in the first
one is answered alike in the others. -/
structure Comparison where
  program : Program
  types : LocalTypes
  reference : Question → Option (Option ConstraintSet)
  long : Question → Option (Option ConstraintSet)
  wide : Question → Option (Option ConstraintSet)
  reference_long : Program.ExtendedBy reference long
  reference_wide : Program.ExtendedBy reference wide

namespace Comparison

open Walk

variable {K : Comparison} {α β : Type} {rel rel' : α → α → α → Prop}

/-- Three stretches of walks, the first state and the last one of each: no locals are new, and the
third one finds what the second one finds, if its locals admit what those of the second hold. -/
structure Moves (K : Comparison) (s₁ s₂ s₃ t₁ t₂ t₃ : WalkState) : Prop where
  types₁ : t₁.HasTypes K.types
  types₂ : t₂.HasTypes K.types
  types₃ : t₃.HasTypes K.types
  extends₂ : s₂.Extends t₂
  extends₃ : s₃.Extends t₃
  callees : s₃.Admits K.program.hierarchy t₂ → ∀ c ∈ t₂.summary.callees,
    c ∈ s₂.summary.callees ∨ c ∈ t₃.summary.callees ∨ K.program.index.HasAbstract c

/-- Only the callees of three walks are to be compared, if it is clear which locals they
introduce. -/
theorem Moves.of_composed {events : List NameEvent} {x y z : Walk α}
    {s₁ s₂ s₃ t₁ t₂ t₃ : WalkState} {a b c : α} (hx : Composed events x) (hy : Composed events y)
    (hz : Composed events z)
    (hintroduced : ∀ name, .introduce name ∈ events → (K.types name).isSome)
    (hs₁ : s₁.HasTypes K.types) (hs₂ : s₂.HasTypes K.types) (hs₃ : s₃.HasTypes K.types)
    (hendsx : ends K.reference x s₁ = some (a, t₁)) (hendsy : ends K.long y s₂ = some (b, t₂))
    (hendsz : ends K.wide z s₃ = some (c, t₃))
    (hcallees : s₂.Extends t₂ → s₃.Admits K.program.hierarchy t₂ → ∀ c ∈ t₂.summary.callees,
      c ∈ s₂.summary.callees ∨ c ∈ t₃.summary.callees ∨ K.program.index.HasAbstract c) :
    K.Moves s₁ s₂ s₃ t₁ t₂ t₃ := by
  have hmoves {answers : Question → Option (Option ConstraintSet)} {w : Walk α} {s t : WalkState}
      {a : α} (hw : Composed events w) (hs : s.HasTypes K.types)
      (hends : ends answers w s = some (a, t)) : t.HasTypes K.types ∧ s.Extends t := by
    obtain ⟨hst, hnames⟩ := hw.growth hends
    refine ⟨hs.of_extends hst fun name hname => ?_, hst⟩
    rcases (hnames name).mp hname with hold | hnew
    · exact hold
    · obtain ⟨l, hl, -⟩ := hs.exists_local (hintroduced name hnew)
      exact Std.ExtTreeMap.mem_iff_isSome_getElem?.mpr (by simp [hl])
  obtain ⟨ht₁, -⟩ := hmoves hx hs₁ hendsx
  obtain ⟨ht₂, hst₂⟩ := hmoves hy hs₂ hendsy
  obtain ⟨ht₃, hst₃⟩ := hmoves hz hs₃ hendsz
  exact ⟨ht₁, ht₂, ht₃, hst₂, hst₃, hcallees hst₂⟩

def Tracks (K : Comparison) (rel : α → α → α → Prop) (x y z : Walk α) : Prop :=
  ∀ (s₁ s₂ s₃ t₁ t₂ t₃ : WalkState) (a b c : α), s₁.HasTypes K.types → s₂.HasTypes K.types →
    s₃.HasTypes K.types → ends K.reference x s₁ = some (a, t₁) →
    ends K.long y s₂ = some (b, t₂) → ends K.wide z s₃ = some (c, t₃) →
    rel a b c ∧ K.Moves s₁ s₂ s₃ t₁ t₂ t₃

namespace Tracks

variable {x y z : Walk α}

theorem mono (h : K.Tracks rel x y z) (hrel : ∀ a b c, rel a b c → rel' a b c) :
    K.Tracks rel' x y z := by
  intro s₁ s₂ s₃ t₁ t₂ t₃ a b c hs₁ hs₂ hs₃ hx hy hz
  exact (h s₁ s₂ s₃ t₁ t₂ t₃ a b c hs₁ hs₂ hs₃ hx hy hz).imp_left (hrel a b c)

theorem pure {a b c : α} (h : rel a b c) :
    K.Tracks rel (Pure.pure a) (Pure.pure b) (Pure.pure c) := by
  intro s₁ s₂ s₃ t₁ t₂ t₃ a b c hs₁ hs₂ hs₃ hx hy hz
  cases hx
  cases hy
  cases hz
  exact ⟨h, hs₁, hs₂, hs₃, .refl s₂, .refl s₃, fun _ _ => .inl⟩

theorem bind {rel' : β → β → β → Prop} {f g k : α → Walk β} (hx : K.Tracks rel x y z)
    (hf : ∀ a b c, rel a b c → K.Tracks rel' (f a) (g b) (k c)) :
    K.Tracks rel' (x >>= f) (y >>= g) (z >>= k) := by
  intro s₁ s₂ s₃ u₁ u₂ u₃ a b c hs₁ hs₂ hs₃ hfx hgy hkz
  rw [ends_bind, Option.bind_eq_some_iff] at hfx hgy hkz
  obtain ⟨⟨a', t₁⟩, hx', hfx⟩ := hfx
  obtain ⟨⟨b', t₂⟩, hy', hgy⟩ := hgy
  obtain ⟨⟨c', t₃⟩, hz', hkz⟩ := hkz
  obtain ⟨hrel, hfirst⟩ := hx s₁ s₂ s₃ t₁ t₂ t₃ a' b' c' hs₁ hs₂ hs₃ hx' hy' hz'
  obtain ⟨hrel', hrest⟩ := hf a' b' c' hrel t₁ t₂ t₃ u₁ u₂ u₃ a b c hfirst.types₁ hfirst.types₂
    hfirst.types₃ hfx hgy hkz
  refine ⟨hrel', hrest.types₁, hrest.types₂, hrest.types₃, hfirst.extends₂.trans hrest.extends₂,
    hfirst.extends₃.trans hrest.extends₃, fun hadmits callee hcallee => ?_⟩
  rcases hrest.callees (hadmits.extends hfirst.extends₃) callee hcallee with hmid | hlater
  · rcases hfirst.callees (hadmits.of_locals hrest.extends₂.locals) callee hmid
      with hbefore | hfound | habstract
    · exact .inl hbefore
    · exact .inr (.inl (hrest.extends₃.summary.2.2 callee hfound))
    · exact .inr (.inr habstract)
  · exact .inr hlater

theorem discard (hx : K.Tracks rel x y z) :
    K.Tracks (fun _ _ _ => True) (discard x) (discard y) (discard z) :=
  hx.bind fun _ _ _ _ => pure trivial

theorem forM {f : β → Walk PUnit} {l : List β}
    (hf : ∀ b ∈ l, K.Tracks (fun _ _ _ => True) (f b) (f b) (f b)) :
    K.Tracks (fun _ _ _ => True) (l.forM f) (l.forM f) (l.forM f) := by
  induction l with
  | nil => exact pure trivial
  | cons b l ih =>
    exact (hf b List.mem_cons_self).bind fun _ _ _ _ =>
      ih fun b hb => hf b (List.mem_cons_of_mem _ hb)

theorem get_bind {f : WalkState → Walk α}
    (hf : ∀ s₁ s₂ s₃ : WalkState, s₁.HasTypes K.types → s₂.HasTypes K.types →
      s₃.HasTypes K.types → K.Tracks rel (f s₁) (f s₂) (f s₃)) :
    K.Tracks rel (MonadState.get >>= f) (MonadState.get >>= f) (MonadState.get >>= f) :=
  fun s₁ s₂ s₃ t₁ t₂ t₃ a b c hs₁ hs₂ hs₃ =>
    hf s₁ s₂ s₃ hs₁ hs₂ hs₃ s₁ s₂ s₃ t₁ t₂ t₃ a b c hs₁ hs₂ hs₃

/-- A walk that looks at no local does the same three times. -/
theorem same (h : Composed [] x) : K.Tracks (fun a b c => b = a ∧ c = a) x x x := by
  generalize hevents : ([] : List NameEvent) = events at h
  induction h with
  | pure a => exact pure ⟨rfl, rfl⟩
  | bind _ _ hx hf =>
    obtain ⟨rfl, rfl⟩ := List.append_eq_nil_iff.mp hevents.symm
    refine (hx rfl).bind fun a b c habc => ?_
    obtain ⟨rfl, rfl⟩ := habc
    exact hf _ rfl
  | question q =>
    intro s₁ s₂ s₃ t₁ t₂ t₃ a b c hs₁ hs₂ hs₃ hx hy hz
    rw [ends_question, Option.map_eq_some_iff] at hx hy hz
    obtain ⟨a', ha, heq⟩ := hx
    obtain ⟨b', hb, heq'⟩ := hy
    obtain ⟨c', hc, heq''⟩ := hz
    cases heq
    cases heq'
    cases heq''
    refine ⟨⟨?_, ?_⟩, hs₁, hs₂, hs₃, .refl s₂, .refl s₃, fun _ _ => .inl⟩
    · exact Option.some.inj (hb.symm.trans (K.reference_long q a ha))
    · exact Option.some.inj (hc.symm.trans (K.reference_wide q a ha))
  | note hf =>
    intro s₁ s₂ s₃ t₁ t₂ t₃ a b c hs₁ hs₂ hs₃ hx hy hz
    cases hx
    cases hy
    cases hz
    refine ⟨⟨rfl, rfl⟩, hs₁, hs₂, hs₃, WalkState.extends_add hf s₂, WalkState.extends_add hf s₃, ?_⟩
    exact fun _ callee hcallee => (hf.callees s₃.summary callee hcallee).imp_right .inl
  | look _ _ _ => cases hevents
  | assignName _ _ _ => cases hevents
  | declare _ _ => cases hevents
  | declareAssign _ _ _ => cases hevents

/-- Walks that find no callees need not have anything to do with each other. -/
theorem silent {events : List NameEvent} (hx : Composed events x) (hy : Composed events y)
    (hz : Composed events z) (hintroduced : ∀ name, .introduce name ∈ events →
      (K.types name).isSome)
    (hcallees : ∀ (answers : Question → Option (Option ConstraintSet)) (s t : WalkState) (a : α),
      ends answers y s = some (a, t) → t.summary.callees = s.summary.callees) :
    K.Tracks (fun _ _ _ => True) x y z := by
  intro s₁ s₂ s₃ t₁ t₂ t₃ a b c hs₁ hs₂ hs₃ hx' hy' hz'
  refine ⟨trivial, .of_composed hx hy hz hintroduced hs₁ hs₂ hs₃ hx' hy' hz' fun _ _ => ?_⟩
  rw [hcallees _ _ _ _ hy']
  exact fun _ => .inl

end Tracks

end Comparison

end JavaCallGraph
