import JavaCallGraph.Proofs.WalkCallees
import JavaCallGraph.Proofs.WalkFrames
import JavaCallGraph.Proofs.WalkGrowth

/-!
# The steps of a walk

Every walk through a body is put together from a few kinds of steps: asking a question, looking at
a local, assigning to it or declaring it, and noting something in the summary. The names that the
steps use and introduce, in their order, can be read off the syntax. What each kind of step keeps,
a walk keeps.
-/

namespace JavaCallGraph

inductive NameEvent where
  /-- The name is looked up or assigned to. -/
  | use (name : String)
  /-- A local of that name is declared. -/
  | introduce (name : String)
  deriving DecidableEq

/-! ### Events in the order of a walk -/

mutual

def Expr.events : Expr → List NameEvent
  | .new _ args _ _ => Expr.allEvents args
  | .call receiver _ args _ => Expr.allEvents args ++ Receiver.events receiver
  | .fieldAccess receiver _ => Expr.events receiver
  | .name name => [.use name]
  | .this _ | .super | .literal _ => []
  | .binary _ left right => Expr.events left ++ Expr.events right
  | .instanceOf value _ binding => Expr.events value ++ binding.toList.map .introduce
  | .assign target value => Expr.events value ++ Expr.events target
  | .cast _ value => Expr.events value
  | .conditional condition yes no =>
    Expr.events condition ++ (Expr.events yes ++ Expr.events no)
  | .arrayAccess array index => Expr.events array ++ Expr.events index
  | .arrayNew _ elements => Expr.allEvents elements
  | .lambda params body => params.map (.introduce ·.name) ++ Stmt.allEvents body
  | .switch selector body values =>
    Expr.events selector ++ (Stmt.allEvents body ++ Expr.allEvents values)
  | .methodRef receiver _ => Expr.events receiver
  | .other parts => Expr.allEvents parts

def Expr.allEvents : List Expr → List NameEvent
  | [] => []
  | e :: es => Expr.events e ++ Expr.allEvents es

def Receiver.events : Receiver → List NameEvent
  | .implicit | .super | .qualifiedSuper _ => []
  | .expr e => Expr.events e

def Stmt.events : Stmt → List NameEvent
  | .localVar name _ none => [.introduce name]
  | .localVar name _ (some init) => Expr.events init ++ [.introduce name]
  | .forEach name _ iterable => Expr.events iterable ++ [.introduce name]
  | .expr e => Expr.events e
  | .ret none => []
  | .ret (some e) => Expr.events e
  | .ctorCall _ args _ => Expr.allEvents args

def Stmt.allEvents : List Stmt → List NameEvent
  | [] => []
  | s :: ss => Stmt.events s ++ Stmt.allEvents ss

end

namespace TypeDecl

def initEvents (decl : TypeDecl) (isStatic : Bool) : List NameEvent :=
  ((decl.fields.filter (·.isStatic == isStatic)).flatMap fun f =>
      (f.init.map Expr.events).getD []) ++
    (decl.initializers.filter (·.isStatic == isStatic)).flatMap fun block =>
      Stmt.allEvents block.body

def constructorEvents (decl : TypeDecl) : List Stmt → List NameEvent
  | .ctorCall target args line :: rest =>
    Stmt.events (.ctorCall target args line) ++
      ((if target != .this then decl.initEvents false else []) ++ Stmt.allEvents rest)
  | body => decl.initEvents false ++ Stmt.allEvents body

end TypeDecl

def Body.events (b : Body) : List NameEvent :=
  match b.kind with
  | .declared index =>
    match b.source.decl.methods[index]? with
    | some m =>
      if m.kind = .constructor then b.source.decl.constructorEvents (m.body.getD [])
      else Stmt.allEvents (m.body.getD [])
    | none => []
  | .defaultConstructor => b.source.decl.constructorEvents []
  | .staticInit => b.source.decl.initEvents true

namespace Walk

variable {α β : Type} {answers : Question → Option (Option ConstraintSet)}
  {events rest : List NameEvent}

/-- The walk is put together from steps with these events. -/
inductive Composed : List NameEvent → {α : Type} → Walk α → Prop where
  | pure {α : Type} (a : α) : Composed [] (Pure.pure a : Walk α)
  | bind {events rest : List NameEvent} {α β : Type} {x : Walk α} {f : α → Walk β}
      (hx : Composed events x) (hf : ∀ a, Composed rest (f a)) :
      Composed (events ++ rest) (x >>= f)
  | question (q : Question) : Composed [] (Script.question q : Walk _)
  /-- What comes next depends on one local. -/
  | look {rest : List NameEvent} {name : String} {α : Type} {f : WalkState → Walk α}
      (hlocal : ∀ s t : WalkState, s.locals[name]? = t.locals[name]? → f s = f t)
      (hf : ∀ s, Composed rest (f s)) : Composed (.use name :: rest) (MonadState.get >>= f)
  | assignName (ctx : BodyContext) (name : String) (v : Value) :
      Composed [.use name] (ctx.assignName name v)
  | declare (name : String) (l : Local) : Composed [.introduce name] (modify (·.declare name l))
  | declareAssign (name : String) (type : Option StaticType) (set : ConstraintSet) :
      Composed [.introduce name] (modify fun s => (s.declareLocal name type).assign name set)
  | note {f : BodySummary → BodySummary} (hf : BodySummary.Adds f) :
      Composed [] (modify fun s => { s with summary := f s.summary })

namespace Composed

theorem andThen {x : Walk α} {f : α → Walk β} (hx : Composed events x)
    (hf : ∀ a, Composed [] (f a)) : Composed events (x >>= f) := by
  have h := hx.bind hf
  rwa [List.append_nil] at h

theorem before {x : Walk α} {f : α → Walk β} (hx : Composed [] x)
    (hf : ∀ a, Composed events (f a)) : Composed events (x >>= f) := hx.bind hf

theorem discard {x : Walk α} (hx : Composed events x) : Composed events (discard x) :=
  hx.andThen fun _ => .pure _

theorem foldlM {f : β → α → Walk β} (hf : ∀ b a, Composed [] (f b a)) (b : β) (l : List α) :
    Composed [] (l.foldlM f b) := by
  induction l generalizing b with
  | nil => exact .pure b
  | cons a l ih => exact (hf b a).bind fun b => ih b

theorem forM {f : α → Walk PUnit} {g : α → List NameEvent} (hf : ∀ a, Composed (g a) (f a))
    (l : List α) : Composed (l.flatMap g) (l.forM f) := by
  induction l with
  | nil => exact .pure _
  | cons a l ih =>
    rw [List.flatMap_cons]
    exact (hf a).bind fun _ => ih

end Composed

end Walk

/-! ### Syntax -/

namespace BodyContext

open Walk

variable (ctx : BodyContext)

theorem composed_fieldValue (field : Field) (receiver : Option StaticType) :
    Composed [] (ctx.fieldValue field receiver) := by
  refine (Composed.question _).before fun answer => ?_
  split
  · exact .pure _
  · exact .pure _

theorem composed_nameValue (name : String) : Composed [.use name] (ctx.nameValue name) := by
  refine .look (fun s t hlocal => by rw [hlocal]) fun s => ?_
  split
  · exact .pure _
  · split
    · exact ctx.composed_fieldValue _ _
    · split
      · exact .pure _
      · exact .pure _

theorem composed_superFieldValue (name : String) : Composed [] (ctx.superFieldValue name) := by
  unfold superFieldValue
  split
  · exact .pure _
  · split
    · exact ctx.composed_fieldValue _ _
    · exact .pure _

theorem composed_memberValue (receiver : Value) (name : String) :
    Composed [] (ctx.memberValue receiver name) := by
  unfold memberValue
  cases receiver.kind with
  | package package =>
    dsimp only
    split
    · exact .pure _
    · exact .pure _
  | type type =>
    dsimp only
    split
    · exact ctx.composed_fieldValue _ _
    · exact .pure _
  | object =>
    dsimp only
    split
    · exact .pure _
    · split
      · exact ctx.composed_fieldValue _ _
      · exact .pure _

theorem composed_record (found : List Resolution) :
    Composed [] (modify (·.record found) : Walk Unit) :=
  .note (BodySummary.adds_addCallees _)

theorem composed_resolve (name : String) (receiver : SiteReceiver) (args : List Value) :
    Composed [] (ctx.resolve name receiver args) :=
  (composed_record _).before fun _ => .pure _

theorem composed_callConstructor (type : String) (args : List Value) :
    Composed [] (ctx.callConstructor type args) := (ctx.composed_resolve _ _ _).discard

theorem composed_returned (found : List Resolution) : Composed [] (ctx.returned found) := by
  refine (Composed.foldlM (fun acc r => ?_) none found).before fun _ => .pure _
  unfold addReturned
  dsimp only
  split
  · exact .pure _
  · refine (Composed.question _).before fun answer => ?_
    cases acc with
    | none => exact .pure _
    | some v => exact .pure _

theorem composed_callOn (name : String) (args : List Value) (acc : Option Value)
    (receiver : SiteReceiver) : Composed [] (ctx.callOn name args acc receiver) :=
  (ctx.composed_resolve _ _ _).before fun found =>
    (ctx.composed_returned found).before fun _ => .pure _

theorem composed_methodReference (v : Value) (name : String) :
    Composed [] (ctx.methodReference v name) := by
  unfold methodReference
  split
  · exact composed_record _
  · exact .pure _

theorem composed_writeTo (field? : Option Field) (v : Value) : Composed [] (writeTo field? v) := by
  cases field? with
  | none => exact .pure _
  | some field => exact .note (BodySummary.adds_addWrite _ _)

theorem composed_declareParams (params : List Param) :
    Composed (params.map (.introduce ·.name))
      (modify (ctx.declareParams · params) : Walk Unit) := by
  induction params with
  | nil => exact .pure ()
  | cons p params ih => exact (Composed.declare p.name (ctx.localOf p)).bind fun _ => ih

mutual

theorem composed_expr (ctx : BodyContext) : (e : Expr) → Composed e.events (ctx.expr e)
  | .new type args bodyType line => by
    rw [expr, Expr.events]
    refine (composed_exprs ctx args).andThen fun args => ?_
    dsimp only
    split
    · exact .pure _
    · exact (ctx.composed_callConstructor _ _).before fun _ => .pure _
  | .call receiver name args line => by
    rw [expr, Expr.events]
    refine (composed_exprs ctx args).bind fun args => ?_
    refine (composed_siteReceivers ctx name receiver).andThen fun receivers => ?_
    exact (Composed.foldlM (ctx.composed_callOn name args) _ _).before fun _ => .pure _
  | .fieldAccess receiver name => by
    have hreceiver := composed_expr ctx receiver
    rw [expr.eq_def, Expr.events]
    dsimp only
    split
    · rw [Expr.events]
      exact ctx.composed_superFieldValue name
    · exact hreceiver.andThen fun _ => ctx.composed_memberValue _ _
  | .name name => by
    rw [expr, Expr.events]
    exact ctx.composed_nameValue name
  | .this none => by
    rw [expr, Expr.events]
    exact .pure _
  | .this (some qualifier) => by
    rw [expr, Expr.events]
    split
    · exact .pure _
    · exact .pure _
  | .super => by
    rw [expr, Expr.events]
    split
    · exact .pure _
    · exact .pure _
  | .literal l => by
    rw [expr, Expr.events]
    exact .pure _
  | .binary op left right => by
    rw [expr, Expr.events]
    refine (composed_expr ctx left).bind fun _ => ?_
    exact (composed_expr ctx right).andThen fun _ => .pure _
  | .instanceOf value type binding => by
    rw [expr, Expr.events]
    refine (composed_expr ctx value).bind fun v => ?_
    cases binding with
    | none => exact .pure _
    | some name => exact (Composed.declareAssign name _ _).andThen fun _ => .pure _
  | .assign target value => by
    have htarget := composed_expr ctx target
    rw [expr.eq_def, Expr.events]
    dsimp only
    refine (composed_expr ctx value).bind fun v => ?_
    split
    · rw [Expr.events]
      exact (Composed.assignName ctx _ v).andThen fun _ => .pure _
    · rw [Expr.events, Expr.events]
      exact (composed_writeTo _ v).before fun _ => .pure _
    · rw [Expr.events]
      refine (composed_expr ctx _).andThen fun r => ?_
      exact (composed_writeTo _ v).before fun _ => .pure _
    · exact htarget.discard.andThen fun _ => .pure _
  | .cast type value => by
    rw [expr, Expr.events]
    exact (composed_expr ctx value).andThen fun _ => .pure _
  | .conditional condition yes no => by
    rw [expr, Expr.events]
    refine (composed_expr ctx condition).discard.bind fun _ => ?_
    exact (composed_expr ctx yes).bind fun _ => (composed_expr ctx no).andThen fun _ => .pure _
  | .arrayAccess array index => by
    rw [expr, Expr.events]
    refine (composed_expr ctx array).bind fun v => ?_
    refine (composed_expr ctx index).discard.andThen fun _ => ?_
    split
    · exact .pure _
    · exact .pure _
  | .arrayNew type elements => by
    rw [expr, Expr.events]
    exact (composed_exprs ctx elements).discard.andThen fun _ => .pure _
  | .lambda params body => by
    rw [expr, Expr.events]
    refine (ctx.composed_declareParams params).bind fun _ => ?_
    exact (composed_stmts { ctx with inLambda := true } body).andThen fun _ => .pure _
  | .switch selector body values => by
    rw [expr, Expr.events]
    refine (composed_expr ctx selector).discard.bind fun _ => ?_
    refine (composed_stmts ctx body).bind fun _ => ?_
    exact (composed_exprs ctx values).andThen fun _ => .pure _
  | .methodRef receiver name => by
    rw [expr, Expr.events]
    refine (composed_expr ctx receiver).andThen fun v => ?_
    exact (ctx.composed_methodReference v name).before fun _ => .pure _
  | .other parts => by
    rw [expr, Expr.events]
    exact (composed_exprs ctx parts).discard.andThen fun _ => .pure _
termination_by e => sizeOf e

theorem composed_exprs (ctx : BodyContext) :
    (es : List Expr) → Composed (Expr.allEvents es) (ctx.exprs es)
  | [] => by
    rw [exprs, Expr.allEvents]
    exact .pure _
  | e :: es => by
    rw [exprs, Expr.allEvents]
    exact (composed_expr ctx e).bind fun _ => (composed_exprs ctx es).andThen fun _ => .pure _
termination_by es => sizeOf es

theorem composed_siteReceivers (ctx : BodyContext) (name : String) :
    (r : Receiver) → Composed r.events (ctx.siteReceivers name r)
  | .implicit => by
    rw [siteReceivers, Receiver.events]
    exact .pure _
  | .super => by
    rw [siteReceivers, Receiver.events]
    exact .pure _
  | .qualifiedSuper qualifier => by
    rw [siteReceivers, Receiver.events]
    exact .pure _
  | .expr e => by
    rw [siteReceivers, Receiver.events]
    exact (composed_expr ctx e).andThen fun _ => .pure _
termination_by r => sizeOf r

theorem composed_stmt (ctx : BodyContext) : (s : Stmt) → Composed s.events (ctx.stmt s)
  | .localVar name type none => by
    rw [stmt, Stmt.events]
    exact .declare name _
  | .localVar name type (some init) => by
    rw [stmt, Stmt.events]
    exact (composed_expr ctx init).bind fun v => .declareAssign name _ _
  | .forEach name type iterable => by
    rw [stmt, Stmt.events]
    exact (composed_expr ctx iterable).bind fun v => .declareAssign name _ _
  | .expr e => by
    rw [stmt, Stmt.events]
    exact (composed_expr ctx e).discard
  | .ret none => by
    rw [stmt, Stmt.events]
    exact .pure _
  | .ret (some e) => by
    rw [stmt, Stmt.events]
    refine (composed_expr ctx e).andThen fun v => ?_
    split
    · exact .pure _
    · exact .note (BodySummary.adds_addReturn _)
  | .ctorCall target args line => by
    rw [stmt, Stmt.events]
    refine (composed_exprs ctx args).andThen fun args => ?_
    cases target with
    | this => exact ctx.composed_callConstructor _ _
    | super =>
      dsimp only
      split
      · exact ctx.composed_callConstructor _ _
      · exact .pure _
termination_by s => sizeOf s

theorem composed_stmts (ctx : BodyContext) :
    (ss : List Stmt) → Composed (Stmt.allEvents ss) (ctx.stmts ss)
  | [] => by
    rw [stmts, Stmt.allEvents]
    exact .pure _
  | s :: ss => by
    rw [stmts, Stmt.allEvents]
    exact (composed_stmt ctx s).bind fun _ => composed_stmts ctx ss
termination_by ss => sizeOf ss

end

/-! ### Bodies -/

theorem composed_initialise (decl : TypeDecl) (isStatic : Bool) :
    Composed (decl.initEvents isStatic) (ctx.initialise decl isStatic) := by
  refine (Composed.forM (fun f => ?_) _).bind fun _ => .forM (fun _ => composed_stmts ctx _) _
  unfold initField
  cases f.init with
  | none => exact .pure _
  | some init => exact (composed_expr ctx init).andThen fun _ => composed_writeTo _ _

theorem composed_implicitSuper (decl : TypeDecl) : Composed [] (ctx.implicitSuper decl) := by
  unfold implicitSuper
  split
  · exact .pure _
  · split
    · exact .pure _
    · split
      · exact ctx.composed_callConstructor _ _
      · exact .pure _

theorem composed_constructorPass (decl : TypeDecl) (body : List Stmt) :
    Composed (decl.constructorEvents body) (ctx.constructorPass decl body) := by
  unfold constructorPass
  split
  · rw [TypeDecl.constructorEvents]
    refine (composed_stmt ctx _).bind fun _ => ?_
    split
    · exact (ctx.composed_initialise decl false).bind fun _ => composed_stmts ctx _
    · exact composed_stmts ctx _
  · next hother =>
    rw [TypeDecl.constructorEvents]
    · refine (ctx.composed_implicitSuper decl).before fun _ => ?_
      exact (ctx.composed_initialise decl false).bind fun _ => composed_stmts ctx _
    · exact hother

end BodyContext

open BodyContext

theorem Body.composed_passOf {p : Program} {b : Body} {ctx : BodyContext} {params : List Param}
    {pass : Walk Unit} (h : passOf p b = some (ctx, params, pass)) :
    Walk.Composed b.events pass := by
  unfold passOf at h
  unfold Body.events
  dsimp only at h
  cases hb : b.kind with
  | declared index =>
    rw [hb] at h
    obtain ⟨m, hm, h⟩ := Option.bind_eq_some_iff.mp h
    obtain ⟨body, hbody, h⟩ := Option.bind_eq_some_iff.mp h
    dsimp only
    rw [hm]
    dsimp only
    rw [hbody, Option.getD_some]
    split at h
    · next hkind =>
      cases h
      rw [if_pos hkind]
      exact composed_constructorPass _ _ _
    · next hkind =>
      cases h
      rw [if_neg (by simp [hkind])]
      exact composed_stmts _ _
  | defaultConstructor =>
    rw [hb] at h
    cases h
    exact composed_constructorPass _ _ _
  | staticInit =>
    rw [hb] at h
    cases h
    exact composed_initialise _ _ _

/-! ### Growth -/

namespace Walk

variable {α : Type} {answers : Question → Option (Option ConstraintSet)}
  {events : List NameEvent} {x : Walk α} {s t : WalkState} {a : α}

theorem ends_question (q : Question) (s : WalkState) :
    ends answers (Script.question q : Walk _) s = (answers q).map fun answer => (answer, s) := by
  change (answers q >>= fun answer => some (answer, s)) = _
  rw [Option.bind_eq_bind, Option.map_eq_bind]
  rfl

/-- A walk leaves the locals that there were and those that it introduces, and no others. -/
theorem Composed.growth (h : Composed events x) (hends : ends answers x s = some (a, t)) :
    s.Extends t ∧ ∀ name, name ∈ t.locals ↔ name ∈ s.locals ∨ .introduce name ∈ events := by
  induction h generalizing s t with
  | pure b =>
    cases hends
    exact ⟨.refl s, by simp⟩
  | bind _ _ hx hf =>
    rw [ends_bind, Option.bind_eq_some_iff] at hends
    obtain ⟨⟨b, u⟩, hu, ht⟩ := hends
    obtain ⟨hsu, hnames⟩ := hx hu
    obtain ⟨hut, hnames'⟩ := hf b ht
    refine ⟨hsu.trans hut, fun name => ?_⟩
    rw [hnames', hnames, List.mem_append, or_assoc]
  | question q =>
    rw [ends_question, Option.map_eq_some_iff] at hends
    obtain ⟨answer, -, heq⟩ := hends
    cases heq
    exact ⟨.refl s, by simp⟩
  | look _ _ hf => simpa using hf s hends
  | assignName ctx name v =>
    cases hassign : s.assign? name v.set with
    | none =>
      rw [ctx.ends_assignName_of_none hassign] at hends
      cases hfield : ctx.implicitField? name with
      | none =>
        rw [hfield] at hends
        cases hends
        exact ⟨.refl s, by simp⟩
      | some field =>
        rw [hfield] at hends
        cases hends
        exact ⟨WalkState.extends_add (BodySummary.adds_addWrite _ _) s, by simp [WalkState.write]⟩
    | some u =>
      rw [ctx.ends_assignName_of_some hassign] at hends
      cases hends
      exact ⟨WalkState.extends_of_assign? hassign, by simp [WalkState.mem_of_assign? hassign]⟩
  | declare name l =>
    cases hends
    refine ⟨WalkState.extends_declare s name l, fun other => ?_⟩
    simp [WalkState.mem_declare, or_comm]
  | declareAssign name type set =>
    cases hends
    refine ⟨(WalkState.extends_declare s name _).trans (WalkState.extends_assign _ name set),
      fun other => ?_⟩
    simp [WalkState.mem_assign, WalkState.declareLocal, WalkState.mem_declare, or_comm]
  | note hf =>
    cases hends
    exact ⟨WalkState.extends_add hf s, by simp⟩

end Walk

end JavaCallGraph
