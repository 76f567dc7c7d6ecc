import JavaCallGraph.Dispatch
import JavaCallGraph.Inference.Script
import JavaCallGraph.Program
import JavaCallGraph.Value

/-!
# Walking a body

A walk evaluates the expressions of a body in order, without regard to control flow. Assignments
add to what a local may hold, and the methods that each call may run are collected. What other
bodies return or write to fields is asked by the script that the walk makes.
-/

namespace JavaCallGraph

/-- A local variable or a parameter. -/
structure Local where
  type : Option StaticType
  set : ConstraintSet
  /-- Something has been assigned to it; before that its declared type speaks for it. -/
  assigned : Bool

/-- The locals of a body and what has been found out about it so far. -/
structure WalkState where
  locals : NameMap Local := ∅
  /-- A local has grown during this pass. -/
  changed : Bool := false
  summary : BodySummary := {}

namespace WalkState

/-- A local that is declared again stays as it is. -/
def declare (s : WalkState) (name : String) (l : Local) : WalkState :=
  { s with locals := s.locals.insertIfNew name l }

def declareLocal (s : WalkState) (name : String) (type : Option StaticType) : WalkState :=
  s.declare name ⟨type, .empty, false⟩

/-- Adds `set` to a local; nothing if there is no such local. -/
def assign? (s : WalkState) (name : String) (set : ConstraintSet) : Option WalkState :=
  s.locals[name]?.map fun l =>
    { s with
      locals := s.locals.insert name { l with set := l.set ∪ set, assigned := true }
      changed := s.changed || !l.assigned || l.set.growsBy set }

def assign (s : WalkState) (name : String) (set : ConstraintSet) : WalkState :=
  (s.assign? name set).getD s

/-- Lets every local hold whatever its declared type allows. -/
def widen (s : WalkState) : WalkState :=
  { s with locals := s.locals.map fun _ l =>
      { l with assigned := true, set := { l.set with unresolved := true } } }

def write (s : WalkState) (field : Field) (v : Value) : WalkState :=
  { s with summary := s.summary.addWrite (.ofField field) v.set }

def record (s : WalkState) (found : List Resolution) : WalkState :=
  { s with summary := s.summary.addCallees (found.map (·.method.signature)) }

def addReturn (s : WalkState) (v : Value) : WalkState :=
  { s with summary := s.summary.addReturn v.set }

end WalkState

/-- The surroundings of a body. -/
structure BodyContext where
  program : Program
  scope : UnitScope
  /-- The type that the body stands in. -/
  current : String
  /-- The type variables in scope. -/
  vars : List String
  isStatic : Bool
  /-- Inside a lambda a return is not one of the body. -/
  inLambda : Bool := false

abbrev Walk := StateT WalkState Script

namespace BodyContext

variable (ctx : BodyContext)

def hierarchy : Hierarchy := ctx.program.hierarchy

def catalog : Catalog := ctx.program.catalog

def bind (t : TypeRef) : StaticType := ctx.program.bind ctx.scope ctx.current ctx.vars t

/-- The classes that a declared type allows. -/
def setOf (t : StaticType) : ConstraintSet := .ofType ctx.hierarchy t

/-- The classes that `this` may have inside the type `owner`. -/
def thisSet (owner : String) : ConstraintSet :=
  if (ctx.hierarchy.get? owner).any (·.kind == .anonymous) then .exact owner
  else .cone ctx.hierarchy owner

def thisValue (owner : String) : Value := .ofType (.reference owner) (ctx.thisSet owner)

/-- The supertype `sup` of `sub` with the arguments that `sub` gives it. -/
def superView (sub sup : String) : StaticType :=
  match ctx.hierarchy.get? sub with
  | some node => node.viewOf sup
  | none => .reference sup

def superclass? : Option String := ctx.hierarchy.superclass? ctx.current

/-! ### Names -/

def localOf (p : Param) : Local :=
  if p.type.isInferred then ⟨none, .unknown, true⟩
  else ⟨some (ctx.bind p.type), ctx.setOf (ctx.bind p.type), true⟩

def declareParams (s : WalkState) (params : List Param) : WalkState :=
  params.foldl (fun s p => s.declare p.name (ctx.localOf p)) s

def localValue (l : Local) : Value :=
  match l.type with
  | some t =>
    let set := if !l.assigned || l.set.unresolved then l.set ∪ ctx.setOf t else l.set
    .ofType t set
  | none => { set := l.set }

/-- A field that can be named alone: one of a type around the body, or one imported. -/
def implicitField? (name : String) : Option Field :=
  (lexicalChain ctx.current).findSome? (ctx.catalog.field? · name)
    <|> (ctx.scope.staticOwners ctx.program.names name).findSome? (ctx.catalog.field? · name)

def memberField? (receiver : Value) (name : String) : Option Field :=
  match receiver.kind with
  | .type t => ctx.catalog.field? t name
  | .package _ => none
  | .object =>
    match receiver.type >>= StaticType.referenceName? with
    | some t => ctx.catalog.field? t name
    | none => receiver.set.types.toList.findSome? (ctx.catalog.field? · name)

def superField? (name : String) : Option Field := ctx.superclass? >>= (ctx.catalog.field? · name)

/-- The value that a field has when it is read through a receiver of a known type. -/
def fieldValue (field : Field) (receiver : Option StaticType) : Walk Value := do
  let type := match receiver with
    | some r => field.type.substitute (ctx.hierarchy.view r field.declaring)
    | none => field.type
  match ← Script.question (.fieldSet (.ofField field)) with
  | some set => return .ofType type (if set.unresolved then set ∪ ctx.setOf type else set)
  | none => return .ofType type (ctx.setOf type)

/-- What a name stands for: a local, a field, a type, or else the start of a package name. -/
def nameValue (name : String) : Walk Value := do
  match (← get).locals[name]? with
  | some l => return ctx.localValue l
  | none =>
    match ctx.implicitField? name with
    | some field => ctx.fieldValue field none
    | none =>
      match ctx.scope.resolveKnown ctx.program.names (some ctx.current) name with
      | some type => return .typeName type
      | none => return .packageName name

def superFieldValue (name : String) : Walk Value :=
  match ctx.superclass? with
  | none => return .unknown
  | some sup =>
    match ctx.catalog.field? sup name with
    | some field => ctx.fieldValue field (some (ctx.superView ctx.current sup))
    | none => return .unknown

def memberValue (receiver : Value) (name : String) : Walk Value :=
  match receiver.kind with
  | .package package =>
    let dotted := package ++ "." ++ name
    match ctx.program.names.resolveDotted dotted with
    | some type => return .typeName type
    | none => return .packageName dotted
  | .type type =>
    match ctx.catalog.field? type name with
    | some field => ctx.fieldValue field none
    | none =>
      let member := type ++ "$" ++ name
      return if ctx.program.names.contains member then .typeName member else .unknown
  | .object =>
    if name == "length" && (receiver.type >>= StaticType.element?).isSome then
      return .ofPrimitive .int
    else
      match ctx.memberField? receiver name with
      | some field => ctx.fieldValue field receiver.type
      | none => return .unknown

/-! ### Calls -/

/-- Collects the methods that a call may run. -/
def resolve (name : String) (receiver : SiteReceiver) (args : List Value) :
    Walk (List Resolution) := do
  let found := ctx.program.index.resolve name receiver (args.map Value.type)
  modify (·.record found)
  return found

def callConstructor (type : String) (args : List Value) : Walk Unit :=
  discard (ctx.resolve "<init>" (.constructor type) args)

/-- Adds what one callee returns to what the callees before it return. -/
def addReturned (acc : Option Value) (r : Resolution) : Walk (Option Value) := do
  let ret := r.method.ret.substitute r.bindings
  if ret.desc.isVoid then return acc
  let set := (← Script.question (.returnSet r.method)).getD (ctx.setOf ret)
  match acc with
  | some v => return some { v with set := v.set ∪ set }
  | none => return some (.ofType ret set)

/-- What a call returns, given the methods that it may run. -/
def returned (found : List Resolution) : Walk Value :=
  return (← found.foldlM ctx.addReturned none).getD .unknown

def callOn (name : String) (args : List Value) (acc : Option Value) (receiver : SiteReceiver) :
    Walk (Option Value) := do
  let v ← ctx.returned (← ctx.resolve name receiver args)
  return some (acc.elim v (·.orElse v))

/-- A plain call goes to the innermost type around the body that has such a method, or else to the
types that it may be imported from. -/
def implicitReceivers (name : String) : List SiteReceiver :=
  match (lexicalChain ctx.current).find? (ctx.catalog.hasMethodNamed · name) with
  | some owner =>
    if owner == ctx.current && ctx.isStatic then [.static owner]
    else [.object (ctx.thisSet owner) (some (.reference owner))]
  | none =>
    ((ctx.scope.staticOwners ctx.program.names name).filter
      (ctx.catalog.hasMethodNamed · name)).map .static

def superReceivers (sub : String) : List SiteReceiver :=
  match ctx.hierarchy.superclass? sub with
  | some sup => [.super (ctx.superView sub sup)]
  | none => []

def qualifiedSuperReceivers (qualifier : TypeRef) : List SiteReceiver :=
  match (ctx.bind qualifier).referenceName? with
  | none => []
  | some named =>
    if ctx.hierarchy.isInterface named then [.super (ctx.superView ctx.current named)]
    else ctx.superReceivers named

def valueReceivers (v : Value) : List SiteReceiver :=
  match v.kind with
  | .type t => [.static t]
  | .package _ => []
  | .object => if v.set.isNever then [] else [.object v.set v.type]

/-- `Type::method`, `Type::new` and `expr::method`. -/
def referenceReceiver? (v : Value) (name : String) : Option SiteReceiver :=
  match v.kind with
  | .type t =>
    if name == "new" then some (.constructor t)
    else some (.object (.cone ctx.hierarchy t) (some (.reference t)))
  | .package _ => none
  | .object => some (.object v.set v.type)

def methodReference (v : Value) (name : String) : Walk Unit :=
  match ctx.referenceReceiver? v name with
  | some receiver => modify (·.record (ctx.program.index.resolveReference name receiver))
  | none => return

/-! ### Statements and expressions -/

def iterableName : String := "java.lang.Iterable"

/-- The type of the elements of an array or of an iterable object. -/
def elementType? (t : StaticType) : Option StaticType :=
  t.element? <|> (ctx.hierarchy.view t iterableName)["T"]?

def writeTo (field? : Option Field) (v : Value) : Walk Unit :=
  match field? with
  | some field => modify (·.write field v)
  | none => return

/-- Assigns to a local or, if there is none of that name, to a field. -/
def assignName (name : String) (v : Value) : Walk Unit := do
  match (← get).assign? name v.set with
  | some s => set s
  | none => writeTo (ctx.implicitField? name) v

/-- Any of the values of a `switch`; the first one's type speaks for all. -/
def anyOf : List Value → Value
  | [] => .unknown
  | v :: vs => { v with set := vs.foldl (fun set w => set ∪ w.set) v.set }

mutual

def expr (ctx : BodyContext) : Expr → Walk Value
  | .new type args bodyType _ => do
    let args ← exprs ctx args
    let bound := ctx.bind type
    match bodyType.or bound.referenceName? with
    | none => return .unknown
    | some target =>
      ctx.callConstructor target args
      return .ofType bound (.exact target)
  | .call receiver name args _ => do
    let args ← exprs ctx args
    let receivers ← siteReceivers ctx name receiver
    return (← receivers.foldlM (ctx.callOn name args) none).getD .unknown
  | .fieldAccess receiver name =>
    let evaluate := expr ctx receiver
    match receiver with
    | .super => ctx.superFieldValue name
    | _ => do ctx.memberValue (← evaluate) name
  | .name name => ctx.nameValue name
  | .this none => return ctx.thisValue ctx.current
  | .this (some qualifier) =>
    match (ctx.bind qualifier).referenceName? with
    | some owner => return ctx.thisValue owner
    | none => return .unknown
  | .super =>
    match ctx.superclass? with
    | some sup => return .ofType (ctx.superView ctx.current sup) (ctx.thisSet ctx.current)
    | none => return .unknown
  | .literal l => return l.value
  | .binary op left right => do
    let left ← expr ctx left
    let right ← expr ctx right
    return .binary op left right
  | .instanceOf value type binding => do
    let v ← expr ctx value
    match binding with
    | some name =>
      let target := ctx.bind type
      modify fun s => (s.declareLocal name (some target)).assign name
        (v.set.narrow ctx.hierarchy target)
    | none => pure ()
    return .ofPrimitive .boolean
  | .assign target value => do
    let v ← expr ctx value
    let evaluate := expr ctx target
    match target with
    | .name name => ctx.assignName name v
    | .fieldAccess .super name => writeTo (ctx.superField? name) v
    | .fieldAccess receiver name =>
      let r ← expr ctx receiver
      writeTo (ctx.memberField? r name) v
    | _ => discard evaluate
    return v
  | .cast type value => do
    let v ← expr ctx value
    let target := ctx.bind type
    return .ofType target <|
      if target.desc.isPrimitive then .empty else v.set.narrow ctx.hierarchy target
  | .conditional condition yes no => do
    discard (expr ctx condition)
    let yes ← expr ctx yes
    let no ← expr ctx no
    return { yes.orElse no with kind := .object }
  | .arrayAccess array index => do
    let array ← expr ctx array
    discard (expr ctx index)
    match array.type >>= StaticType.element? with
    | some element => return .ofType element (ctx.setOf element)
    | none => return .unknown
  | .arrayNew type elements => do
    discard (exprs ctx elements)
    return .ofType (ctx.bind type) .empty
  | .lambda params body => do
    modify (ctx.declareParams · params)
    stmts { ctx with inLambda := true } body
    return .unknown
  | .switch selector body values => do
    discard (expr ctx selector)
    stmts ctx body
    return anyOf (← exprs ctx values)
  | .methodRef receiver name => do
    ctx.methodReference (← expr ctx receiver) name
    return .unknown
  | .other parts => do
    discard (exprs ctx parts)
    return .unknown

def exprs (ctx : BodyContext) : List Expr → Walk (List Value)
  | [] => return []
  | e :: es => do
    let v ← expr ctx e
    return v :: (← exprs ctx es)

def siteReceivers (ctx : BodyContext) (name : String) : Receiver → Walk (List SiteReceiver)
  | .implicit => return ctx.implicitReceivers name
  | .super => return ctx.superReceivers ctx.current
  | .qualifiedSuper qualifier => return ctx.qualifiedSuperReceivers qualifier
  | .expr e => return valueReceivers (← expr ctx e)

def stmt (ctx : BodyContext) : Stmt → Walk Unit
  | .localVar name type none =>
    modify (·.declareLocal name (if type.isInferred then none else some (ctx.bind type)))
  | .localVar name type (some init) => do
    let v ← expr ctx init
    let type := if type.isInferred then v.type else some (ctx.bind type)
    modify fun s => (s.declareLocal name type).assign name v.set
  | .forEach name type iterable => do
    let source ← expr ctx iterable
    let element :=
      if type.isInferred then source.type >>= ctx.elementType? else some (ctx.bind type)
    let set := (element.map ctx.setOf).getD .unknown
    modify fun s => (s.declareLocal name element).assign name set
  | .expr e => discard (expr ctx e)
  | .ret none => return
  | .ret (some e) => do
    let v ← expr ctx e
    if ctx.inLambda then return
    modify (·.addReturn v)
  | .ctorCall target args _ => do
    let args ← exprs ctx args
    match target with
    | .this => ctx.callConstructor ctx.current args
    | .super =>
      match ctx.superclass? with
      | some sup => ctx.callConstructor sup args
      | none => return

def stmts (ctx : BodyContext) : List Stmt → Walk Unit
  | [] => return
  | s :: ss => do
    stmt ctx s
    stmts ctx ss

end

end BodyContext

end JavaCallGraph
