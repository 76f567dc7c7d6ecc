import JavaCallGraph.Inference.Walk

/-!
# Summaries of bodies

A body is walked again and again until its locals stop growing. After a bounded number of passes
the locals are widened to their declared types and one last pass settles the summary.
-/

namespace JavaCallGraph

namespace BodyContext

/-- The number of passes before the locals are widened. -/
def maxPasses : Nat := 8

/-- Runs `pass` until it changes no local, or widens the locals after `passes` passes. -/
def settle (pass : Walk Unit) : Nat → Walk Unit
  | 0 => do
    modify fun s => { s.widen with changed := false }
    pass
  | passes + 1 => do
    modify fun s => { s with changed := false }
    pass
    if (← get).changed then settle pass passes

variable (ctx : BodyContext)

/-- Evaluates the initializer of a field and writes its value to the field. -/
def initField (decl : TypeDecl) (f : FieldDecl) : Walk Unit :=
  match f.init with
  | none => return
  | some init => do
    let v ← ctx.expr init
    writeTo (ctx.catalog.field? decl.name f.name) v

/-- The field initializers and then the blocks of a type, the static ones or the others. -/
def initialise (decl : TypeDecl) (isStatic : Bool) : Walk Unit := do
  (decl.fields.filter (·.isStatic == isStatic)).forM (ctx.initField decl)
  (decl.initializers.filter (·.isStatic == isStatic)).forM fun block => ctx.stmts block.body

/-- The call of the superclass constructor that a constructor without one starts with. Only
superclasses with sources matter. -/
def implicitSuper (decl : TypeDecl) : Walk Unit :=
  if decl.kind == .anonymous || decl.kind == .enum then return
  else
    match ctx.hierarchy.superclass? decl.name with
    | none => return
    | some sup =>
      if (ctx.program.source? sup).isSome then ctx.callConstructor sup [] else return

/-- A constructor calls another one, initialises the object unless that one is of the same class,
and then runs the rest of its body. -/
def constructorPass (decl : TypeDecl) (body : List Stmt) : Walk Unit :=
  match body with
  | .ctorCall target args line :: rest => do
    ctx.stmt (.ctorCall target args line)
    if target != .this then ctx.initialise decl false
    ctx.stmts rest
  | _ => do
    ctx.implicitSuper decl
    ctx.initialise decl false
    ctx.stmts body

end BodyContext

namespace Body

/-- The context of a body, the walk of one pass through it, and its parameters. -/
def passOf (p : Program) (b : Body) : Option (BodyContext × List Param × Walk Unit) :=
  let decl := b.source.decl
  let context (vars : List String) (isStatic : Bool) : BodyContext :=
    { program := p, scope := b.source.scope, current := decl.name, isStatic
      vars := p.typeVars decl.name ++ vars }
  match b.kind with
  | .declared index => do
    let m ← decl.methods[index]?
    let body ← m.body
    let ctx := context (m.typeParams.map (·.name)) m.modifiers.isStatic
    match m.kind with
    | .constructor => return (ctx, m.params, ctx.constructorPass decl body)
    | .method => return (ctx, m.params, ctx.stmts body)
  | .defaultConstructor =>
    let ctx := context [] false
    some (ctx, [], ctx.constructorPass decl [])
  | .staticInit =>
    let ctx := context [] true
    some (ctx, [], ctx.initialise decl true)

/-- The walk of the body that implements a signature; none if there is no such body. -/
def summarize (p : Program) (s : Signature) : Script (Option BodySummary) :=
  match p.body? s >>= passOf p with
  | none => return none
  | some (ctx, params, pass) => do
    let start := ctx.declareParams {} params
    let (_, done) ← (BodyContext.settle pass BodyContext.maxPasses).run start
    return some done.summary

end Body

end JavaCallGraph
