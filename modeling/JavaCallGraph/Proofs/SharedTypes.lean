import JavaCallGraph.Inference.Engine
import JavaCallGraph.Proofs.DeclarationHeads
import JavaCallGraph.Proofs.KnownNames

/-!
# Programs with the same types

A walk looks up types and names, and nothing else of the program. In two programs with the same
types, whose names no lookup tells apart, the same statements make the same walk, whatever other
bodies there are.
-/

namespace JavaCallGraph

namespace Program

/-- The types of the one program and the names and sources of the other. -/
def withSources (p q : Program) : Program := { q with index := p.index }

structure SharesTypes (p q : Program) : Prop where
  names_agree : q.names.Agree p.names
  index_eq : q.index = p.index
  isSome_source? : ∀ type, (q.source? type).isSome = (p.source? type).isSome
  typeVars_eq : ∀ type, q.typeVars type = p.typeVars type
  byType_eq : q.byType = p.byType

theorem SharesTypes.withSources_eq {p q : Program} (h : p.SharesTypes q) : p.withSources q = q := by
  rw [withSources, ← h.index_eq]

end Program

namespace BodyContext

def withSources (ctx : BodyContext) (q : Program) : BodyContext :=
  { ctx with program := ctx.program.withSources q }

def within (ctx : BodyContext) (q : Program) : BodyContext := { ctx with program := q }

section Names

variable {ctx : BodyContext} {q : Program} (hnames : q.names.Agree ctx.program.names)
include hnames

theorem bind_withSources : (ctx.withSources q).bind = ctx.bind := by
  funext t
  exact UnitScope.bind_eq ctx.scope (some ctx.current) hnames ctx.vars t

theorem declareParams_withSources : (ctx.withSources q).declareParams = ctx.declareParams := by
  have hlocal : (ctx.withSources q).localOf = ctx.localOf := by
    funext p
    unfold localOf
    rw [bind_withSources hnames]
    rfl
  funext s params
  unfold declareParams
  rw [hlocal]

theorem implicitField?_withSources (name : String) :
    (ctx.withSources q).implicitField? name = ctx.implicitField? name := by
  have howners := UnitScope.staticOwners_eq ctx.scope hnames name
  unfold implicitField?
  exact congrArg (fun owners => _ <|> List.findSome? (ctx.catalog.field? · name) owners) howners

theorem nameValue_withSources (name : String) :
    (ctx.withSources q).nameValue name = ctx.nameValue name := by
  have hknown : (ctx.withSources q).scope.resolveKnown (ctx.withSources q).program.names
      (some (ctx.withSources q).current) name = _ :=
    UnitScope.resolveKnown_eq ctx.scope (some ctx.current) hnames name
  unfold nameValue
  rw [implicitField?_withSources hnames, hknown]
  rfl

theorem memberValue_withSources (receiver : Value) (name : String) :
    (ctx.withSources q).memberValue receiver name = ctx.memberValue receiver name := by
  have hdotted : (ctx.withSources q).program.names.resolveDotted = _ := hnames.resolveDotted
  have hcontains : (ctx.withSources q).program.names.contains = _ := hnames.contains
  unfold memberValue
  rw [hdotted, hcontains]
  rfl

theorem implicitReceivers_withSources (name : String) :
    (ctx.withSources q).implicitReceivers name = ctx.implicitReceivers name := by
  have howners :
      (ctx.withSources q).scope.staticOwners (ctx.withSources q).program.names name = _ :=
    UnitScope.staticOwners_eq ctx.scope hnames name
  unfold implicitReceivers
  rw [howners]
  rfl

theorem assignName_withSources (name : String) (v : Value) :
    (ctx.withSources q).assignName name v = ctx.assignName name v := by
  unfold assignName
  rw [implicitField?_withSources hnames]

theorem qualifiedSuperReceivers_withSources (qualifier : TypeRef) :
    (ctx.withSources q).qualifiedSuperReceivers qualifier =
      ctx.qualifiedSuperReceivers qualifier := by
  unfold qualifiedSuperReceivers
  rw [bind_withSources hnames]
  rfl

end Names

-- What a walk looks up in the program are names, by the lemmas above, and types, which stay the
-- same terms; so only the recursion has to be followed.
mutual

theorem expr_withSources (ctx : BodyContext) {q : Program}
    (hnames : q.names.Agree ctx.program.names) :
    (e : Expr) → (ctx.withSources q).expr e = ctx.expr e
  | .new type args bodyType line => by
    rw [expr, expr, exprs_withSources ctx hnames args, bind_withSources hnames]
    rfl
  | .call receiver name args line => by
    rw [expr, expr, exprs_withSources ctx hnames args,
      siteReceivers_withSources ctx hnames name receiver]
    rfl
  | .fieldAccess receiver name => by
    have hreceiver := expr_withSources ctx hnames receiver
    rw [expr.eq_def, expr.eq_def]
    dsimp only
    rw [hreceiver]
    simp only [memberValue_withSources hnames]
    rfl
  | .name name => by
    rw [expr, expr, nameValue_withSources hnames]
  | .this none => by
    rw [expr, expr]
    rfl
  | .this (some qualifier) => by
    rw [expr, expr, bind_withSources hnames]
    rfl
  | .super => by
    rw [expr, expr]
    rfl
  | .literal l => by
    rw [expr, expr]
  | .binary op left right => by
    rw [expr, expr, expr_withSources ctx hnames left, expr_withSources ctx hnames right]
  | .instanceOf value type binding => by
    rw [expr, expr, expr_withSources ctx hnames value, bind_withSources hnames]
    rfl
  | .assign target value => by
    have htarget := expr_withSources ctx hnames target
    have hvalue := expr_withSources ctx hnames value
    rw [expr.eq_def, expr.eq_def ctx]
    dsimp only
    rw [htarget, hvalue]
    congr 1
    funext v
    split
    · rw [assignName_withSources hnames]
    · rfl
    · rw [expr_withSources ctx hnames _]
      rfl
    · rfl
  | .cast type value => by
    rw [expr, expr, expr_withSources ctx hnames value, bind_withSources hnames]
    rfl
  | .conditional condition yes no => by
    rw [expr, expr, expr_withSources ctx hnames condition, expr_withSources ctx hnames yes,
      expr_withSources ctx hnames no]
  | .arrayAccess array index => by
    rw [expr, expr, expr_withSources ctx hnames array, expr_withSources ctx hnames index]
    rfl
  | .arrayNew type elements => by
    rw [expr, expr, exprs_withSources ctx hnames elements, bind_withSources hnames]
  | .lambda params body => by
    have hbody := stmts_withSources { ctx with inLambda := true } hnames body
    rw [expr, expr, ← hbody, declareParams_withSources hnames]
    rfl
  | .switch selector body values => by
    rw [expr, expr, expr_withSources ctx hnames selector, stmts_withSources ctx hnames body,
      exprs_withSources ctx hnames values]
  | .methodRef receiver name => by
    rw [expr, expr, expr_withSources ctx hnames receiver]
    rfl
  | .other parts => by
    rw [expr, expr, exprs_withSources ctx hnames parts]
termination_by e => sizeOf e

theorem exprs_withSources (ctx : BodyContext) {q : Program}
    (hnames : q.names.Agree ctx.program.names) :
    (es : List Expr) → (ctx.withSources q).exprs es = ctx.exprs es
  | [] => by
    rw [exprs, exprs]
  | e :: es => by
    rw [exprs, exprs, expr_withSources ctx hnames e, exprs_withSources ctx hnames es]
termination_by es => sizeOf es

theorem siteReceivers_withSources (ctx : BodyContext) {q : Program}
    (hnames : q.names.Agree ctx.program.names) (name : String) :
    (r : Receiver) → (ctx.withSources q).siteReceivers name r = ctx.siteReceivers name r
  | .implicit => by
    rw [siteReceivers, siteReceivers, implicitReceivers_withSources hnames]
  | .super => by
    rw [siteReceivers, siteReceivers]
    rfl
  | .qualifiedSuper qualifier => by
    rw [siteReceivers, siteReceivers, qualifiedSuperReceivers_withSources hnames]
  | .expr e => by
    rw [siteReceivers, siteReceivers, expr_withSources ctx hnames e]
termination_by r => sizeOf r

theorem stmt_withSources (ctx : BodyContext) {q : Program}
    (hnames : q.names.Agree ctx.program.names) :
    (s : Stmt) → (ctx.withSources q).stmt s = ctx.stmt s
  | .localVar name type none => by
    rw [stmt, stmt, bind_withSources hnames]
  | .localVar name type (some init) => by
    rw [stmt, stmt, expr_withSources ctx hnames init, bind_withSources hnames]
  | .forEach name type iterable => by
    rw [stmt, stmt, expr_withSources ctx hnames iterable, bind_withSources hnames]
    rfl
  | .expr e => by
    rw [stmt, stmt, expr_withSources ctx hnames e]
  | .ret none => by
    rw [stmt, stmt]
  | .ret (some e) => by
    rw [stmt, stmt, expr_withSources ctx hnames e]
    rfl
  | .ctorCall target args line => by
    rw [stmt, stmt, exprs_withSources ctx hnames args]
    rfl
termination_by s => sizeOf s

theorem stmts_withSources (ctx : BodyContext) {q : Program}
    (hnames : q.names.Agree ctx.program.names) :
    (ss : List Stmt) → (ctx.withSources q).stmts ss = ctx.stmts ss
  | [] => by
    rw [stmts, stmts]
  | s :: ss => by
    rw [stmts, stmts, stmt_withSources ctx hnames s, stmts_withSources ctx hnames ss]
termination_by ss => sizeOf ss

end

variable {ctx : BodyContext} {q : Program} (h : ctx.program.SharesTypes q)
include h

theorem within_eq_withSources : ctx.within q = ctx.withSources q := by
  rw [within, withSources, h.withSources_eq]

theorem declareParams_within (start : WalkState) (params : List Param) :
    (ctx.within q).declareParams start params = ctx.declareParams start params := by
  rw [within_eq_withSources h, declareParams_withSources h.names_agree]

theorem stmts_within (body : List Stmt) : (ctx.within q).stmts body = ctx.stmts body := by
  rw [within_eq_withSources h, stmts_withSources ctx h.names_agree]

theorem initialise_within (decl : TypeDecl) (isStatic : Bool) :
    (ctx.within q).initialise decl isStatic = ctx.initialise decl isStatic := by
  have hfield : (ctx.withSources q).initField decl = ctx.initField decl := by
    funext f
    unfold initField
    cases f.init with
    | none => rfl
    | some init =>
      dsimp only
      rw [expr_withSources ctx h.names_agree]
      rfl
  rw [within_eq_withSources h]
  unfold initialise
  simp only [hfield, stmts_withSources ctx h.names_agree]

theorem implicitSuper_within (decl : TypeDecl) :
    (ctx.within q).implicitSuper decl = ctx.implicitSuper decl := by
  have hsource (type : String) : ((ctx.withSources q).program.source? type).isSome =
      (ctx.program.source? type).isSome := h.isSome_source? type
  rw [within_eq_withSources h]
  unfold implicitSuper
  simp only [hsource]
  rfl

theorem constructorPass_within (decl : TypeDecl) (body : List Stmt) :
    (ctx.within q).constructorPass decl body = ctx.constructorPass decl body := by
  have hsuper := implicitSuper_within h decl
  have hinit := initialise_within h decl false
  rw [within_eq_withSources h] at hsuper hinit ⊢
  unfold constructorPass
  simp only [stmt_withSources ctx h.names_agree, stmts_withSources ctx h.names_agree, hsuper,
    hinit]

end BodyContext

/-! ### Bodies -/

namespace BodyContext

variable (ctx : BodyContext) {source source' : SourceType} (h : source.SameHead source')
include h

theorem initialise_congr_head (isStatic : Bool) :
    ctx.initialise source'.decl isStatic = ctx.initialise source.decl isStatic := by
  unfold initialise initField
  rw [h.fields_eq, h.initializers_eq, h.name_eq]

theorem constructorPass_congr_head (body : List Stmt) :
    ctx.constructorPass source'.decl body = ctx.constructorPass source.decl body := by
  have hsuper : ctx.implicitSuper source'.decl = ctx.implicitSuper source.decl := by
    unfold implicitSuper
    rw [h.kind_eq, h.name_eq]
  unfold constructorPass
  rw [hsuper, ctx.initialise_congr_head h]

end BodyContext

namespace Body

variable {p q : Program}

/-- A body of the same kind in a declaration with the same head makes the same passes, if it is not
a method with other statements. -/
theorem passOf_within (h : p.SharesTypes q) {b b' : Body} (hkind : b'.kind = b.kind)
    (hhead : b.source.SameHead b'.source)
    (hmethod : ∀ i, b.kind = .declared i →
      b'.source.decl.methods[i]? = b.source.decl.methods[i]?) :
    passOf q b' = (passOf p b).map fun found => (found.1.within q, found.2) := by
  obtain ⟨source, kind⟩ := b
  obtain ⟨source', kind'⟩ := b'
  obtain rfl : kind' = kind := hkind
  dsimp only at hhead hmethod
  have hcontext (vars : List String) (isStatic : Bool) :
      ({ program := q, scope := source'.scope, current := source'.decl.name, isStatic
         vars := q.typeVars source'.decl.name ++ vars } : BodyContext) =
      BodyContext.within
        { program := p, scope := source.scope, current := source.decl.name, isStatic
          vars := p.typeVars source.decl.name ++ vars } q := by
    rw [hhead.name_eq, hhead.scope_eq, h.typeVars_eq]
    rfl
  have hshares (vars : List String) (isStatic : Bool) :
      ({ program := p, scope := source.scope, current := source.decl.name, isStatic
         vars := p.typeVars source.decl.name ++ vars } : BodyContext).program.SharesTypes q := h
  unfold passOf
  simp only [hcontext, BodyContext.constructorPass_congr_head _ hhead,
    BodyContext.initialise_congr_head _ hhead, BodyContext.constructorPass_within (hshares _ _),
    BodyContext.initialise_within (hshares _ _), BodyContext.stmts_within (hshares _ _)]
  cases kind' with
  | declared i =>
    dsimp only
    rw [hmethod i rfl]
    cases source.decl.methods[i]? with
    | none => rfl
    | some m =>
      cases hbody : m.body with
      | none => simp [hbody]
      | some body =>
        cases hm : m.kind with
        | method => simp [hbody, hm, pure]
        | constructor => simp [hbody, hm, pure]
  | defaultConstructor => rfl
  | staticInit => rfl

theorem program_of_passOf {b : Body} {found : BodyContext × List Param × Walk Unit}
    (hfound : passOf p b = some found) : found.1.program = p := by
  obtain ⟨source, kind⟩ := b
  cases kind with
  | declared i =>
    simp only [passOf, Option.bind_eq_bind, Option.bind_eq_some_iff] at hfound
    obtain ⟨m, -, body, -, hfound⟩ := hfound
    cases hm : m.kind with
    | method =>
      rw [hm] at hfound
      cases hfound
      rfl
    | constructor =>
      rw [hm] at hfound
      cases hfound
      rfl
  | defaultConstructor =>
    cases hfound
    rfl
  | staticInit =>
    cases hfound
    rfl

theorem summarize_eq_of_passOf (h : p.SharesTypes q) {s : Signature}
    (hpass : (q.body? s >>= passOf q) =
      (p.body? s >>= passOf p).map fun found => (found.1.within q, found.2)) :
    summarize q s = summarize p s := by
  unfold summarize
  rw [hpass]
  cases hfound : p.body? s >>= passOf p with
  | none => rfl
  | some found =>
    obtain ⟨b, -, hb⟩ := Option.bind_eq_some_iff.mp hfound
    have hshares : found.1.program.SharesTypes q := (program_of_passOf hb).symm ▸ h
    dsimp only [Option.map_some]
    rw [BodyContext.declareParams_within hshares]

end Body

theorem Engine.writers_eq {p q : Program} (h : p.SharesTypes q) (declaring : String) :
    writers q declaring = writers p declaring := by
  have hbodies (type : String) : q.typeBodies type = p.typeBodies type := by
    unfold Program.typeBodies
    rw [h.byType_eq]
  unfold writers Program.hierarchy
  simp only [h.isSome_source?, h.index_eq, funext hbodies]

end JavaCallGraph
