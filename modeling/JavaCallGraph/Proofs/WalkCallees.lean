import JavaCallGraph.Inference.Engine
import JavaCallGraph.Proofs.KeptFacts
import JavaCallGraph.Proofs.ListedMethods

/-!
# The callees that a walk collects

Whatever answers its questions get, a walk through a body adds to the callees only what dispatch
finds. The walk of an expression or a statement is taken apart along its syntax; each part keeps
the property that every callee so far is known.
-/

namespace JavaCallGraph

namespace Script

variable {α β : Type}

def All (P : α → Prop) : Script α → Prop
  | done a => P a
  | ask _ next => ∀ answer, (next answer).All P

theorem All.bind {P : α → Prop} {Q : β → Prop} {x : Script α} {f : α → Script β} (hx : x.All P)
    (hf : ∀ a, P a → (f a).All Q) : (x >>= f).All Q := by
  induction x with
  | done a => exact hf a hx
  | ask q next ih => exact fun answer => ih answer (hx answer)

theorem all_of_forall {P : α → Prop} (h : ∀ a, P a) (x : Script α) : x.All P := by
  induction x with
  | done a => exact h a
  | ask q next ih => exact fun answer => ih answer

/-- An engine that answers the questions ends a script with one of its results. -/
theorem All.run {P : α → Prop} {x : Script α} (hx : x.All P)
    (answer : Question → StateM Engine (Option ConstraintSet)) (e : Engine) :
    P ((x.run answer).run e).1 := by
  induction x generalizing e with
  | done a => exact hx
  | ask q next ih =>
    rw [Script.run, Engine.run_bind]
    exact ih _ (hx _) _

end Script

namespace Walk

variable {P : WalkState → Prop} {α β : Type}

def Keeps (P : WalkState → Prop) (x : Walk α) : Prop :=
  ∀ s, P s → (x.run s).All fun r => P r.2

namespace Keeps

theorem pure (a : α) : Keeps P (Pure.pure a : Walk α) := fun _ hs => hs

theorem bind {x : Walk α} {f : α → Walk β} (hx : Keeps P x) (hf : ∀ a, Keeps P (f a)) :
    Keeps P (x >>= f) := fun s hs => (hx s hs).bind fun r hr => hf r.1 r.2 hr

theorem discard {x : Walk α} (hx : Keeps P x) : Keeps P (discard x) :=
  fun s hs => (hx s hs).bind fun _ hr => hr

theorem get : Keeps P (MonadState.get : Walk WalkState) := fun _ hs => hs

theorem get_bind {f : WalkState → Walk α}
    (hf : ∀ s, P s → ((f s).run s).All fun r => P r.2) : Keeps P (MonadState.get >>= f) :=
  fun s hs => hf s hs

theorem modify {f : WalkState → WalkState} (hf : ∀ s, P s → P (f s)) :
    Keeps P (modify f : Walk Unit) := fun s hs => hf s hs

theorem lift (x : Script α) : Keeps P (StateT.lift x : Walk α) :=
  fun _ hs => (Script.all_of_forall (fun _ => trivial) x).bind fun _ _ => hs

theorem foldlM {f : β → α → Walk β} (hf : ∀ b a, Keeps P (f b a)) (b : β) (l : List α) :
    Keeps P (l.foldlM f b) := by
  induction l generalizing b with
  | nil => exact pure b
  | cons a l ih => exact (hf b a).bind fun b => ih b

theorem forM {f : α → Walk PUnit} (hf : ∀ a, Keeps P (f a)) (l : List α) : Keeps P (l.forM f) := by
  induction l with
  | nil => exact pure _
  | cons a l ih => exact (hf a).bind fun _ => ih

end Keeps

end Walk

namespace WalkState

def CalleesKnown (x : TypeIndex) (s : WalkState) : Prop := ∀ c ∈ s.summary.callees, x.Knows c

variable {x : TypeIndex} {s : WalkState}

theorem CalleesKnown.record {found : List Resolution} (hs : s.CalleesKnown x)
    (hfound : ∀ r ∈ found, x.Knows r.method.signature) : (s.record found).CalleesKnown x := by
  intro c hc
  rcases Std.ExtTreeSet.mem_insertMany_list.mp hc with hc | hc
  · exact hs c hc
  · obtain ⟨r, hr, rfl⟩ := List.mem_map.mp (List.contains_iff_mem.mp hc)
    exact hfound r hr

@[simp]
theorem summary_assign (s : WalkState) (name : String) (set : ConstraintSet) :
    (s.assign name set).summary = s.summary := by
  unfold assign assign?
  cases s.locals[name]? with
  | none => rfl
  | some l => rfl

theorem summary_of_assign? {t : WalkState} {name : String} {set : ConstraintSet}
    (h : s.assign? name set = some t) : t.summary = s.summary := by
  have := summary_assign s name set
  rwa [assign, h] at this

end WalkState

namespace BodyContext

open Walk WalkState

variable (ctx : BodyContext)

theorem summary_declareParams (s : WalkState) (params : List Param) :
    (ctx.declareParams s params).summary = s.summary := by
  unfold declareParams
  induction params generalizing s with
  | nil => rfl
  | cons p params ih => exact ih _

abbrev KeepsKnown {α : Type} (w : Walk α) : Prop := Keeps (CalleesKnown ctx.program.index) w

theorem keeps_of_summary_eq {f : WalkState → WalkState} (hf : ∀ s, (f s).summary = s.summary) :
    ctx.KeepsKnown (modify f) :=
  .modify fun s hs c hc => hs c (by rwa [hf s] at hc)

/-! ### Names -/

theorem keeps_fieldValue (field : Field) (receiver : Option StaticType) :
    ctx.KeepsKnown (ctx.fieldValue field receiver) := by
  refine Keeps.bind (Keeps.lift _) fun answer => ?_
  split
  · exact .pure _
  · exact .pure _

theorem keeps_nameValue (name : String) : ctx.KeepsKnown (ctx.nameValue name) := by
  refine Keeps.bind .get fun s => ?_
  split
  · exact .pure _
  · split
    · exact ctx.keeps_fieldValue _ _
    · split
      · exact .pure _
      · exact .pure _

theorem keeps_superFieldValue (name : String) : ctx.KeepsKnown (ctx.superFieldValue name) := by
  unfold superFieldValue
  split
  · exact .pure _
  · split
    · exact ctx.keeps_fieldValue _ _
    · exact .pure _

theorem keeps_memberValue (receiver : Value) (name : String) :
    ctx.KeepsKnown (ctx.memberValue receiver name) := by
  unfold memberValue
  cases receiver.kind with
  | package package =>
    dsimp only
    split
    · exact .pure _
    · exact .pure _
  | type type =>
    dsimp only
    split
    · exact ctx.keeps_fieldValue _ _
    · exact .pure _
  | object =>
    dsimp only
    split
    · exact .pure _
    · split
      · exact ctx.keeps_fieldValue _ _
      · exact .pure _

/-! ### Calls -/

theorem keeps_resolve (name : String) (receiver : SiteReceiver) (args : List Value) :
    ctx.KeepsKnown (ctx.resolve name receiver args) :=
  Keeps.bind (.modify fun _ hs => hs.record TypeIndex.knows_of_mem_resolve) fun _ => .pure _

theorem keeps_callConstructor (type : String) (args : List Value) :
    ctx.KeepsKnown (ctx.callConstructor type args) := (ctx.keeps_resolve _ _ _).discard

theorem keeps_returned (found : List Resolution) : ctx.KeepsKnown (ctx.returned found) := by
  refine Keeps.bind (.foldlM (fun acc r => ?_) _ _) fun _ => .pure _
  unfold addReturned
  dsimp only
  split
  · exact .pure _
  · refine Keeps.bind (Keeps.lift _) fun answer => ?_
    cases acc with
    | none => exact .pure _
    | some v => exact .pure _

theorem keeps_callOn (name : String) (args : List Value) (acc : Option Value)
    (receiver : SiteReceiver) : ctx.KeepsKnown (ctx.callOn name args acc receiver) :=
  (ctx.keeps_resolve _ _ _).bind fun found => (ctx.keeps_returned found).bind fun _ => .pure _

theorem keeps_methodReference (v : Value) (name : String) :
    ctx.KeepsKnown (ctx.methodReference v name) := by
  unfold methodReference
  split
  · exact .modify fun _ hs => hs.record TypeIndex.knows_of_mem_resolveReference
  · exact .pure _

/-! ### Statements and expressions -/

theorem keeps_writeTo (field? : Option Field) (v : Value) : ctx.KeepsKnown (writeTo field? v) := by
  cases field? with
  | none => exact .pure _
  | some field => exact .modify fun _ hs => hs

theorem keeps_assignName (name : String) (v : Value) : ctx.KeepsKnown (ctx.assignName name v) := by
  refine Keeps.get_bind fun s hs => ?_
  cases h : s.assign? name v.set with
  | none => exact ctx.keeps_writeTo _ _ s hs
  | some t => exact fun c hc => hs c (by rwa [summary_of_assign? h] at hc)

mutual

theorem keeps_expr (ctx : BodyContext) : (e : Expr) → ctx.KeepsKnown (ctx.expr e)
  | .new type args bodyType line => by
    rw [expr]
    refine (keeps_exprs ctx args).bind fun args => ?_
    dsimp only
    split
    · exact .pure _
    · exact (ctx.keeps_callConstructor _ _).bind fun _ => .pure _
  | .call receiver name args line => by
    rw [expr]
    refine (keeps_exprs ctx args).bind fun args => ?_
    refine (keeps_siteReceivers ctx name receiver).bind fun receivers => ?_
    exact (Keeps.foldlM (ctx.keeps_callOn name args) _ _).bind fun _ => .pure _
  | .fieldAccess receiver name => by
    have hreceiver := keeps_expr ctx receiver
    rw [expr.eq_def]
    dsimp only
    split
    · exact ctx.keeps_superFieldValue name
    · exact hreceiver.bind fun _ => ctx.keeps_memberValue _ _
  | .name name => by
    rw [expr]
    exact ctx.keeps_nameValue name
  | .this none => by
    rw [expr]
    exact .pure _
  | .this (some qualifier) => by
    rw [expr]
    split
    · exact .pure _
    · exact .pure _
  | .super => by
    rw [expr]
    split
    · exact .pure _
    · exact .pure _
  | .literal l => by
    rw [expr]
    exact .pure _
  | .binary op left right => by
    rw [expr]
    exact (keeps_expr ctx left).bind fun _ => (keeps_expr ctx right).bind fun _ => .pure _
  | .instanceOf value type binding => by
    rw [expr]
    refine (keeps_expr ctx value).bind fun v => ?_
    cases binding with
    | none => exact .pure _
    | some name =>
      refine (ctx.keeps_of_summary_eq fun s => ?_).bind fun _ => .pure _
      rw [summary_assign]
      rfl
  | .assign target value => by
    have htarget := keeps_expr ctx target
    rw [expr.eq_def]
    dsimp only
    refine (keeps_expr ctx value).bind fun v => ?_
    split
    · exact (ctx.keeps_assignName _ v).bind fun _ => .pure _
    · exact (ctx.keeps_writeTo _ v).bind fun _ => .pure _
    · refine (keeps_expr ctx _).bind fun r => ?_
      exact (ctx.keeps_writeTo _ v).bind fun _ => .pure _
    · exact htarget.discard.bind fun _ => .pure _
  | .cast type value => by
    rw [expr]
    exact (keeps_expr ctx value).bind fun _ => .pure _
  | .conditional condition yes no => by
    rw [expr]
    refine (keeps_expr ctx condition).discard.bind fun _ => ?_
    exact (keeps_expr ctx yes).bind fun _ => (keeps_expr ctx no).bind fun _ => .pure _
  | .arrayAccess array index => by
    rw [expr]
    refine (keeps_expr ctx array).bind fun v => ?_
    refine (keeps_expr ctx index).discard.bind fun _ => ?_
    split
    · exact .pure _
    · exact .pure _
  | .arrayNew type elements => by
    rw [expr]
    exact (keeps_exprs ctx elements).discard.bind fun _ => .pure _
  | .lambda params body => by
    rw [expr]
    refine (ctx.keeps_of_summary_eq fun s => ctx.summary_declareParams s params).bind fun _ => ?_
    exact (keeps_stmts { ctx with inLambda := true } body).bind fun _ => .pure _
  | .switch selector body values => by
    rw [expr]
    refine (keeps_expr ctx selector).discard.bind fun _ => ?_
    exact (keeps_stmts ctx body).bind fun _ => (keeps_exprs ctx values).bind fun _ => .pure _
  | .methodRef receiver name => by
    rw [expr]
    refine (keeps_expr ctx receiver).bind fun v => ?_
    exact (ctx.keeps_methodReference v name).bind fun _ => .pure _
  | .other parts => by
    rw [expr]
    exact (keeps_exprs ctx parts).discard.bind fun _ => .pure _
termination_by e => sizeOf e

theorem keeps_exprs (ctx : BodyContext) : (es : List Expr) → ctx.KeepsKnown (ctx.exprs es)
  | [] => by
    rw [exprs]
    exact .pure _
  | e :: es => by
    rw [exprs]
    exact (keeps_expr ctx e).bind fun _ => (keeps_exprs ctx es).bind fun _ => .pure _
termination_by es => sizeOf es

theorem keeps_siteReceivers (ctx : BodyContext) (name : String) :
    (r : Receiver) → ctx.KeepsKnown (ctx.siteReceivers name r)
  | .implicit => by
    rw [siteReceivers]
    exact .pure _
  | .super => by
    rw [siteReceivers]
    exact .pure _
  | .qualifiedSuper qualifier => by
    rw [siteReceivers]
    exact .pure _
  | .expr e => by
    rw [siteReceivers]
    exact (keeps_expr ctx e).bind fun _ => .pure _
termination_by r => sizeOf r

theorem keeps_stmt (ctx : BodyContext) : (s : Stmt) → ctx.KeepsKnown (ctx.stmt s)
  | .localVar name type none => by
    rw [stmt]
    exact ctx.keeps_of_summary_eq fun _ => rfl
  | .localVar name type (some init) => by
    rw [stmt]
    refine (keeps_expr ctx init).bind fun v => ctx.keeps_of_summary_eq fun s => ?_
    rw [summary_assign]
    rfl
  | .forEach name type iterable => by
    rw [stmt]
    refine (keeps_expr ctx iterable).bind fun source => ctx.keeps_of_summary_eq fun s => ?_
    rw [summary_assign]
    rfl
  | .expr e => by
    rw [stmt]
    exact (keeps_expr ctx e).discard
  | .ret none => by
    rw [stmt]
    exact .pure _
  | .ret (some e) => by
    rw [stmt]
    refine (keeps_expr ctx e).bind fun v => ?_
    split
    · exact .pure _
    · exact .modify fun _ hs => hs
  | .ctorCall target args line => by
    rw [stmt]
    refine (keeps_exprs ctx args).bind fun args => ?_
    cases target with
    | this => exact ctx.keeps_callConstructor _ _
    | super =>
      dsimp only
      split
      · exact ctx.keeps_callConstructor _ _
      · exact .pure _
termination_by s => sizeOf s

theorem keeps_stmts (ctx : BodyContext) : (ss : List Stmt) → ctx.KeepsKnown (ctx.stmts ss)
  | [] => by
    rw [stmts]
    exact .pure _
  | s :: ss => by
    rw [stmts]
    exact (keeps_stmt ctx s).bind fun _ => keeps_stmts ctx ss
termination_by ss => sizeOf ss

end

/-! ### Bodies -/

theorem keeps_settle {pass : Walk Unit} (hpass : ctx.KeepsKnown pass) (passes : Nat) :
    ctx.KeepsKnown (settle pass passes) := by
  induction passes with
  | zero =>
    rw [settle]
    exact Keeps.bind (.modify fun _ hs => hs) fun _ => hpass
  | succ passes ih =>
    rw [settle]
    refine Keeps.bind (.modify fun _ hs => hs) fun _ => hpass.bind fun _ => ?_
    refine Keeps.bind .get fun s => ?_
    split
    · exact ih
    · exact .pure _

theorem keeps_initialise (decl : TypeDecl) (isStatic : Bool) :
    ctx.KeepsKnown (ctx.initialise decl isStatic) := by
  refine (Keeps.forM (fun f => ?_) _).bind fun _ => .forM (fun _ => keeps_stmts ctx _) _
  unfold initField
  split
  · exact .pure _
  · exact (keeps_expr ctx _).bind fun _ => ctx.keeps_writeTo _ _

theorem keeps_implicitSuper (decl : TypeDecl) : ctx.KeepsKnown (ctx.implicitSuper decl) := by
  unfold implicitSuper
  split
  · exact .pure _
  · split
    · exact .pure _
    · split
      · exact ctx.keeps_callConstructor _ _
      · exact .pure _

theorem keeps_constructorPass (decl : TypeDecl) (body : List Stmt) :
    ctx.KeepsKnown (ctx.constructorPass decl body) := by
  unfold constructorPass
  split
  · refine (keeps_stmt ctx _).bind fun _ => ?_
    split
    · exact (ctx.keeps_initialise decl false).bind fun _ => keeps_stmts ctx _
    · exact (Keeps.pure _).bind fun _ => keeps_stmts ctx _
  · refine (ctx.keeps_implicitSuper decl).bind fun _ => ?_
    exact (ctx.keeps_initialise decl false).bind fun _ => keeps_stmts ctx _

end BodyContext

open BodyContext WalkState

theorem Body.keeps_passOf {p : Program} {b : Body} {ctx : BodyContext} {params : List Param}
    {pass : Walk Unit} (h : passOf p b = some (ctx, params, pass)) :
    ctx.program = p ∧ ctx.KeepsKnown pass := by
  unfold passOf at h
  dsimp only at h
  split at h
  · obtain ⟨m, -, h⟩ := Option.bind_eq_some_iff.mp h
    obtain ⟨body, -, h⟩ := Option.bind_eq_some_iff.mp h
    split at h
    · cases h
      exact ⟨rfl, keeps_constructorPass _ _ _⟩
    · cases h
      exact ⟨rfl, keeps_stmts _ _⟩
  · cases h
    exact ⟨rfl, keeps_constructorPass _ _ _⟩
  · cases h
    exact ⟨rfl, keeps_initialise _ _ _⟩

theorem Body.all_summarize (p : Program) (s : Signature) :
    (summarize p s).All fun found => ∀ summary ∈ found, ∀ c ∈ summary.callees, p.index.Knows c := by
  unfold summarize
  split
  · exact fun _ h => nomatch h
  · rename_i ctx params pass hpass
    obtain ⟨b, -, hb⟩ := Option.bind_eq_some_iff.mp hpass
    obtain ⟨rfl, hkeeps⟩ := keeps_passOf hb
    have hstart : (ctx.declareParams {} params).CalleesKnown ctx.program.index := by
      intro c hc
      rw [summary_declareParams] at hc
      exact absurd hc Std.ExtTreeSet.not_mem_empty
    refine (ctx.keeps_settle hkeeps maxPasses _ hstart).bind fun r hr => ?_
    intro summary h
    cases h
    exact hr

/-- The methods that a body may call are known to dispatch. -/
theorem Engine.knows_of_mem_callees {p : Program} {s c : Signature} {e : Engine}
    (hc : c ∈ ((callees p s).run e).1) : p.index.Knows c := by
  have hall := (Body.all_summarize p s).run (answer p) e
  rw [callees, run_bind] at hc
  generalize ((Body.summarize p s).run (answer p)).run e = walked at hall hc
  obtain ⟨summary?, e'⟩ := walked
  cases summary? with
  | none => exact absurd hc Std.ExtTreeSet.not_mem_empty
  | some summary => exact hall summary rfl c hc

end JavaCallGraph
