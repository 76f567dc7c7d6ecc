import JavaCallGraph.Unit.Types

/-!
# From trees to compilation units

Every node of a tree has four meanings: the expression it writes, the statements it contributes,
the members it adds to a type as its body, and the type it declares. Each meaning is made from the
meanings of the children, so the reading of a file follows its tree. Meanings are actions on what
has been collected so far, since types and numbers of anonymous classes come in reading order.
-/

namespace JavaCallGraph

structure Lowered where
  package : Option String := none
  /-- The types read to their end, in that order. -/
  types : List TypeDecl := []
  /-- How many anonymous classes each type has. -/
  anonymous : NameMap Nat := ∅
  /-- The results of `yield` statements for each open switch, the innermost first. -/
  yields : List (List Expr) := []

/-- An action of the reading; it knows the type whose body is being read. -/
abbrev Lower (α : Type) := ReaderT (Option String) (StateM Lowered) α

structure Meaning where
  expr : Lower Expr
  stmts : Lower (List Stmt)
  members : TypeDecl → Lower TypeDecl
  declare : Option String → Lower Unit

abbrev Marked := Tree Meaning

namespace Lower

open JavaCallGraph.Tree

def concatM {α β : Type} (f : α → Lower (List β)) (xs : List α) : Lower (List β) :=
  return (← xs.mapM f).flatten

/-! ### Expressions -/

def nothing : Expr := .other []

def exprOr (t : Option Marked) : Lower Expr :=
  match t with
  | some t => t.mark.expr
  | none => return nothing

def exprs (ts : List Marked) : Lower (List Expr) := ts.mapM (·.mark.expr)

/-- The children that are expressions. -/
def innerExprs (cs : List Marked) : Lower (List Expr) :=
  exprs ((named cs).filter (·.kind.isExpression))

def arguments (list : Option Marked) : Lower (List Expr) :=
  match list with
  | none => return []
  | some list => exprs (list.namedChildren.filter (!·.kind.isComment))

/-- The statements of a block, or the one expression that stands in its place. -/
def block (t : Marked) : Lower (List Stmt) :=
  if t.kind.isExpression then return [.expr (← t.mark.expr)]
  else concatM (·.mark.stmts) t.namedChildren

/-- Collects the results of `yield` statements while `action` runs. -/
def collectYields {α : Type} (action : Lower α) : Lower (α × List Expr) := do
  modify fun s => { s with yields := [] :: s.yields }
  let value ← action
  let found := (← get).yields.head?.getD []
  modify fun s => { s with yields := s.yields.tail }
  return (value, found)

def endsWithAny (text : String) (cs : List Char) : Bool := text.toList.getLast?.any cs.contains

/-- The next number of an anonymous class of `owner`. -/
def nextAnonymous (owner : String) : Lower Nat := do
  let number := (← get).anonymous[owner]?.getD 0 + 1
  modify fun s => { s with anonymous := s.anonymous.insert owner number }
  return number

def addType (d : TypeDecl) : Lower Unit := modify fun s => { s with types := s.types ++ [d] }

/-- Runs an action in the body of the type `name`. -/
def inType {α : Type} (name : String) (action : Lower α) : Lower α :=
  fun _ => action (some name)

/-- Declares the class of `body` and returns its name. -/
def anonymousClass (superclass : TypeRef) (body : Marked) : Lower String := do
  let owner := (← read).getD ""
  let simpleName := toString (← nextAnonymous owner)
  let name := owner ++ "$" ++ simpleName
  let decl ← inType name <| body.mark.members {
    name, simpleName
    kind := .anonymous
    modifiers := {}
    typeParams := []
    superclass := some superclass
    interfaces := []
    enclosing := some owner
    line := body.line }
  addType decl
  return name

def receiver (cs : List Marked) : Lower Receiver :=
  match first? .object cs with
  | none => return .implicit
  | some object =>
    if object.kind == .superKeyword then return .super
    else if (cs.eraseP (·.token.label == some .object)).any (·.kind == .superKeyword) then
      return .qualifiedSuper (.named (cleanName object.text))
    else return .expr (← object.mark.expr)

def fieldAccess (cs : List Marked) : Lower Expr :=
  match first? .object cs, first? .field cs with
  | some object, some field =>
    if field.kind == .thisKeyword then return .this (some (.named (cleanName object.text)))
    else do
      let value ← if object.kind == .superKeyword then pure .super else object.mark.expr
      return .fieldAccess value field.text
  | _, _ => return .other (← innerExprs cs)

/-- Dimensions and elements of an array that is created. -/
def arrayPart (t : Marked) : Lower (Nat × List Expr) :=
  match t.kind with
  | .dimensionsExpr => return (1, [.other (← innerExprs t.children)])
  | .dimensions => return (countDims t.text, [])
  | .arrayInitializer => return (0, ← innerExprs t.children)
  | _ => return (0, [])

def lambdaParams (list : Option Marked) : List Param :=
  match list with
  | none => []
  | some list =>
    if list.kind == .identifier then [⟨list.text, inferredRef, false⟩] else params (some list)

def methodRefReceiver (cs : List Marked) : Lower Expr :=
  match (named cs).head? with
  | none => return nothing
  | some r => if r.kind.isExpression then r.mark.expr else return .name (cleanName r.text)

def methodRefName (cs : List Marked) : String :=
  if cs.any (·.kind == .newKeyword) then "new"
  else (((named cs).tail.reverse.find? (·.kind == .identifier)).map text).getD ""

/-- Statements and results of one part of a switch arm. -/
def armPart (isRule : Bool) (t : Marked) : Lower (List Stmt × List Expr) :=
  if t.kind == .switchLabel then return ([], [])
  else if isRule && t.kind == .expressionStatement then return ([], ← exprs t.namedChildren)
  else return (← t.mark.stmts, [])

def switchArm (t : Marked) : Lower (List Stmt × List Expr) := do
  let parts ← t.namedChildren.mapM (armPart (t.kind == .switchRule))
  return (parts.flatMap (·.1), parts.flatMap (·.2))

def switchExpr (cs : List Marked) : Lower Expr := do
  let selector ← exprOr (first? .condition cs)
  let arms := ((first? .body cs).map namedChildren).getD []
  let (parts, yields) ← collectYields (arms.mapM switchArm)
  return .switch selector (parts.flatMap (·.1)) (parts.flatMap (·.2) ++ yields)

def exprMeaning (t : Token) (cs : List Marked) : Lower Expr :=
  match t.kind with
  | .parenthesizedExpression => exprOr (named cs).head?
  | .identifier => return .name t.text
  | .thisKeyword => return .this none
  | .superKeyword => return .super
  | .stringLiteral | .textBlock => return .literal .string
  | .characterLiteral => return .literal .char
  | .trueKeyword | .falseKeyword => return .literal .boolean
  | .nullLiteral => return .literal .null
  | .classLiteral => return .literal .classObject
  | .decimalIntegerLiteral | .hexIntegerLiteral | .octalIntegerLiteral | .binaryIntegerLiteral =>
    return .literal (if endsWithAny t.text ['l', 'L'] then .long else .int)
  | .decimalFloatingPointLiteral | .hexFloatingPointLiteral =>
    return .literal (if endsWithAny t.text ['f', 'F'] then .float else .double)
  | .methodInvocation => do
    let receiver ← receiver cs
    let args ← arguments (first? .arguments cs)
    return .call receiver (((first? .name cs).map text).getD "") args (t.row + 1)
  | .objectCreationExpression => do
    let type := ((first? .type cs).map typeRef).getD objectRef
    let args ← arguments (first? .arguments cs)
    let bodyType ← ((named cs).find? (·.kind == .classBody)).mapM (anonymousClass type)
    return .new type args bodyType (t.row + 1)
  | .fieldAccess => fieldAccess cs
  | .assignmentExpression => do
    let target ← exprOr (first? .left cs)
    let value ← exprOr (first? .right cs)
    let op := ((first? .operator cs).map text).getD "="
    return if op == "=" then .assign target value else .other [target, value]
  | .binaryExpression => do
    let left ← exprOr (first? .left cs)
    let right ← exprOr (first? .right cs)
    return .binary (((first? .operator cs).map text).getD "") left right
  | .instanceofExpression => do
    let value ← exprOr (first? .left cs)
    return .instanceOf value (((first? .right cs).map typeRef).getD objectRef)
      ((first? .name cs).map text)
  | .castExpression => do
    let value ← exprOr (first? .value cs)
    return .cast (((first? .type cs).map typeRef).getD objectRef) value
  | .ternaryExpression => do
    let condition ← exprOr (first? .condition cs)
    let yes ← exprOr (first? .consequence cs)
    let no ← exprOr (first? .alternative cs)
    return .conditional condition yes no
  | .arrayAccess => do
    let array ← exprOr (first? .array cs)
    let index ← exprOr (first? .index cs)
    return .arrayAccess array index
  | .arrayCreationExpression => do
    let type := ((first? .type cs).map typeRef).getD objectRef
    let parts ← (named cs).mapM arrayPart
    return .arrayNew (type.addDims (max 1 (parts.foldl (· + ·.1) 0))) (parts.flatMap (·.2))
  | .lambdaExpression => do
    let body ← match first? .body cs with
      | some body => do pure (← collectYields (block body)).1
      | none => pure []
    return .lambda (lambdaParams (first? .parameters cs)) body
  | .methodReference => do
    let receiver ← methodRefReceiver cs
    return .methodRef receiver (methodRefName cs)
  | .switchExpression => switchExpr cs
  | _ => return .other (← innerExprs cs)

/-! ### Statements -/

def localVar (type : TypeRef) (t : Marked) : Lower Stmt := do
  let init ← (t.child? .value).mapM (·.mark.expr)
  return .localVar (t.childText .name) (type.addDims (dimsOf t.children 0)) init

def catchVar (cs : List Marked) : Stmt :=
  let types := (((named cs).find? (·.kind == .catchType)).map namedChildren).getD []
  let type := types.head?.map typeRef
  let name := ((first? .name cs).map text).getD ""
  .localVar name (type.getD (.named "java.lang.Throwable")) none

def resource (cs : List Marked) : Lower (List Stmt) :=
  match first? .name cs with
  | some name => do
    let init ← (first? .value cs).mapM (·.mark.expr)
    return [.localVar name.text (((first? .type cs).map typeRef).getD inferredRef) init]
  | none => return (← exprs (named cs)).map .expr

/-- A result goes to the innermost open switch; without one it is an ordinary expression. -/
def yieldValue (value : Expr) : Lower (List Stmt) := do
  match (← get).yields with
  | [] => return [.expr value]
  | found :: outer =>
    modify fun s => { s with yields := (found ++ [value]) :: outer }
    return []

def forEach (cs : List Marked) : Lower (List Stmt) := do
  let type := match first? .type cs with
    | some t => t.typeRef.addDims (dimsOf cs 0)
    | none => inferredRef
  let iterable ← exprOr (first? .value cs)
  let body ← match first? .body cs with
    | some body => body.mark.stmts
    | none => pure []
  return .forEach (((first? .name cs).map text).getD "") type iterable :: body

def stmtsMeaning (t : Token) (cs : List Marked) (declare : Option String → Lower Unit) :
    Lower (List Stmt) :=
  match t.kind with
  | .localVariableDeclaration =>
    let type := ((first? .type cs).map typeRef).getD inferredRef
    (labelled .declarator cs).mapM (localVar type)
  | .expressionStatement => return (← exprs (named cs)).map .expr
  | .returnStatement => return [.ret (← (named cs).head?.mapM (·.mark.expr))]
  | .yieldStatement =>
    match (named cs).head? with
    | some value => do yieldValue (← value.mark.expr)
    | none => return []
  | .explicitConstructorInvocation => do
    let isThis := (first? .constructor cs).any (·.kind == .thisKeyword)
    let args ← arguments (first? .arguments cs)
    return [.ctorCall (if isThis then .this else .super) args (t.row + 1)]
  | .enhancedForStatement => forEach cs
  | .catchFormalParameter => return [catchVar cs]
  | .resource => resource cs
  | .breakStatement | .continueStatement | .lineComment | .blockComment => return []
  | .labeledStatement =>
    concatM (·.mark.stmts) ((named cs).filter (·.kind != .identifier))
  | kind =>
    if kind.isTypeDeclaration then do
      declare (← read)
      return []
    else if kind.isExpression then return [.expr (← exprMeaning t cs)]
    else concatM (·.mark.stmts) (named cs)

/-! ### Declarations -/

def fieldDecl (type : TypeRef) (isStatic : Bool) (t : Marked) : Lower FieldDecl := do
  let init ← (t.child? .value).mapM (·.mark.expr)
  return {
    name := t.childText .name
    type := type.addDims (dimsOf t.children 0)
    isStatic, init
    line := t.line }

/-- A method of an interface is abstract when it has no body and is not static. -/
def methodDecl (inInterface : Bool) (t : Marked) : Lower MethodDecl := do
  let body ← (t.child? .body).mapM block
  let modifiers := modifiers t.children
  let isAbstract := modifiers.isAbstract || (inInterface && body.isNone && !modifiers.isStatic)
  return {
    name := t.childText .name
    kind := .method
    modifiers := { modifiers with isAbstract }
    typeParams := typeParams t.children
    params := params (t.child? .parameters)
    ret := (t.child? .type).map fun r => r.typeRef.addDims (dimsOf t.children 0)
    body
    line := t.line }

def constructorDecl (simpleName : String) (t : Marked) : Lower MethodDecl := do
  let body ← (t.child? .body).mapM block
  return {
    name := simpleName
    kind := .constructor
    modifiers := modifiers t.children
    typeParams := typeParams t.children
    params := params (t.child? .parameters)
    ret := none
    body := some (body.getD [])
    line := t.line }

/-- A constant is a static field that holds a new object of the enum; its body is skipped. -/
def enumConstant (decl : TypeDecl) (t : Marked) : Lower FieldDecl := do
  let args ← arguments (t.child? .arguments)
  return {
    name := t.childText .name
    type := .named decl.simpleName
    isStatic := true
    init := some (.new (.named decl.simpleName) args none t.line)
    line := t.line }

def staticBlock (t : Marked) : Lower (List Stmt) :=
  match t.namedChildren.find? (·.kind == .block) with
  | some b => block b
  | none => return []

def member (decl : TypeDecl) (t : Marked) : Lower TypeDecl :=
  match t.kind with
  | .fieldDeclaration | .constantDeclaration => do
    let isStatic := (modifiers t.children).isStatic || decl.kind == .interface
    let fields ← (labelled .declarator t.children).mapM (fieldDecl (t.typeOr objectRef) isStatic)
    return { decl with fields := decl.fields ++ fields }
  | .methodDeclaration => do
    let method ← methodDecl (decl.kind == .interface) t
    return { decl with methods := decl.methods ++ [method] }
  | .constructorDeclaration => do
    let method ← constructorDecl decl.simpleName t
    return { decl with methods := decl.methods ++ [method] }
  | .block => do
    let body ← block t
    return { decl with initializers := decl.initializers ++ [⟨false, body⟩] }
  | .staticInitializer => do
    let body ← staticBlock t
    return { decl with initializers := decl.initializers ++ [⟨true, body⟩] }
  | .enumConstant => do
    let field ← enumConstant decl t
    return { decl with fields := decl.fields ++ [field] }
  | .enumBodyDeclarations => t.mark.members decl
  | kind => do
    if kind.isTypeDeclaration then t.mark.declare (some decl.name)
    return decl

def membersMeaning (cs : List Marked) (decl : TypeDecl) : Lower TypeDecl :=
  (named cs).foldlM member decl

/-! ### Records -/

def publicOnly : Modifiers := { isPublic := true }

def componentAccess (name : String) : Expr := .fieldAccess (.this none) name

def accessor (decl : TypeDecl) (component : Param) : MethodDecl where
  name := component.name
  kind := .method
  modifiers := publicOnly
  typeParams := []
  params := []
  ret := some component.type
  body := some [.ret (some (componentAccess component.name))]
  line := decl.line

/-- Adds the field of a component, and its accessor unless one is declared. -/
def addComponent (decl : TypeDecl) (component : Param) : TypeDecl :=
  let field : FieldDecl := ⟨component.name, component.type, false, none, decl.line⟩
  let declared := decl.methods.any fun m => m.name == component.name && m.params.isEmpty
  { decl with
    fields := decl.fields ++ [field]
    methods := if declared then decl.methods else decl.methods ++ [accessor decl component] }

def isCanonical (components : List Param) (m : MethodDecl) : Bool :=
  m.kind == .constructor && m.params.length == components.length &&
    (m.params.zip components).all fun (a, b) => a.type == b.type

def canonical (decl : TypeDecl) (components : List Param) (compact : List Stmt) : MethodDecl where
  name := decl.simpleName
  kind := .constructor
  modifiers := publicOnly
  typeParams := []
  params := components
  ret := none
  body := some (compact ++ components.map fun c =>
    .expr (.assign (componentAccess c.name) (.name c.name)))
  line := decl.line

def compactBody (found : List Stmt) (t : Marked) : Lower (List Stmt) :=
  match t.kind, t.child? .body with
  | .compactConstructorDeclaration, some body => block body
  | _, _ => return found

/-- The members of a record: those it declares, and a field and an accessor for each component and
the constructor that sets them, as far as it does not declare them. -/
def recordMembers (components : List Param) (body : Option Marked) (decl : TypeDecl) :
    Lower TypeDecl := do
  let members := (body.map namedChildren).getD []
  let compact ← members.foldlM compactBody []
  let decl ← match body with
    | some body => body.mark.members decl
    | none => pure decl
  let decl := components.foldl addComponent decl
  if decl.methods.any (isCanonical components) then return decl
  else return { decl with methods := decl.methods ++ [canonical decl components compact] }

/-! ### Type declarations -/

def kindOf : Kind → TypeKind
  | .interfaceDeclaration | .annotationTypeDeclaration => .interface
  | .enumDeclaration => .enum
  | _ => .plain

def superclassOf (t : Token) (simpleName : String) (cs : List Marked) : Option TypeRef :=
  match t.kind with
  | .enumDeclaration => some ⟨"java.lang.Enum", [.named simpleName], 0⟩
  | .recordDeclaration => some (.named "java.lang.Record")
  | _ => do return (← (← first? .superclass cs).namedChildren.head?).typeRef

def interfacesOf (cs : List Marked) : List TypeRef :=
  let clauses := (named cs).filter fun c =>
    c.kind == .superInterfaces || c.kind == .extendsInterfaces
  let lists := (clauses.flatMap namedChildren).filter (·.kind == .typeList)
  (lists.flatMap namedChildren).map typeRef

def qualifiedName (package enclosing : Option String) (simpleName : String) : String :=
  match enclosing, package with
  | some outer, _ => outer ++ "$" ++ simpleName
  | none, some package => package ++ "." ++ simpleName
  | none, none => simpleName

def declareMeaning (t : Token) (cs : List Marked) (enclosing : Option String) : Lower Unit := do
  let simpleName := ((first? .name cs).map text).getD ""
  let name := qualifiedName (← get).package enclosing simpleName
  let kind := kindOf t.kind
  let modifiers := modifiers cs
  let decl : TypeDecl := {
    name, simpleName, kind
    modifiers := { modifiers with isAbstract := modifiers.isAbstract || kind == .interface }
    typeParams := typeParams cs
    superclass := superclassOf t simpleName cs
    interfaces := interfacesOf cs
    enclosing
    line := t.row + 1 }
  let body := first? .body cs
  let decl ← inType name <|
    if t.kind == .recordDeclaration then
      recordMembers (params (first? .parameters cs)) body decl
    else match body with
      | some body => body.mark.members decl
      | none => pure decl
  addType decl

def meaning (t : Token) (cs : List Marked) : Meaning where
  expr := exprMeaning t cs
  stmts := stmtsMeaning t cs (declareMeaning t cs)
  members := membersMeaning cs
  declare := declareMeaning t cs

/-! ### Files -/

def importOf (t : Marked) : Import where
  path := (dottedName? t.children).getD ""
  isStatic := t.hasChild .staticKeyword
  isWildcard := t.hasChild .asterisk

def topLevel (t : Marked) : Lower Unit := do
  if t.kind == .packageDeclaration then
    modify fun s => { s with package := dottedName? t.namedChildren }
  else if t.kind.isTypeDeclaration then t.mark.declare none

end Lower

/-- The compilation unit of the file at `path` with the given tree. -/
def CompilationUnit.ofTree (path : String) (hasErrors : Bool) (tree : SyntaxTree) :
    CompilationUnit :=
  let items := (tree.annotate Lower.meaning).namedChildren
  let ((), lowered) := (items.forM Lower.topLevel : Lower Unit) none {}
  { path
    package := lowered.package
    imports := (items.filter (·.kind == .importDeclaration)).map Lower.importOf
    types := lowered.types
    hasErrors }

end JavaCallGraph
