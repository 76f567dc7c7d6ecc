import JavaCallGraph.TypeNode

/-!
# Compilation units

One Java file reduced to what call resolution needs: its package and imports, every type it
declares, and the statements and expressions that carry values or calls. Types are kept as
written. Statements are flat: loops and branches contribute their contents.
-/

namespace JavaCallGraph

/-- A type as written. The name `var` without arguments and brackets asks for inference. -/
structure TypeRef where
  name : String
  args : List TypeRef
  dims : Nat
  deriving Repr, Inhabited

namespace TypeRef

def named (name : String) : TypeRef := ⟨name, [], 0⟩

def isInferred (t : TypeRef) : Bool := t.name == "var" && t.dims == 0 && t.args.isEmpty

def addDims (t : TypeRef) (dims : Nat) : TypeRef := { t with dims := t.dims + dims }

mutual

def beq : TypeRef → TypeRef → Bool
  | ⟨n, as, d⟩, ⟨m, bs, e⟩ => n == m && beqAll as bs && d == e

def beqAll : List TypeRef → List TypeRef → Bool
  | [], [] => true
  | a :: as, b :: bs => beq a b && beqAll as bs
  | _, _ => false

end

instance : BEq TypeRef := ⟨beq⟩

mutual

/-- The written form, such as `Map<K,List<V>>[]`. -/
def render : TypeRef → String
  | ⟨name, args, dims⟩ =>
    let inner := if args.isEmpty then "" else "<" ++ String.intercalate "," (renderAll args) ++ ">"
    name ++ inner ++ String.join (List.replicate dims "[]")

def renderAll : List TypeRef → List String
  | [] => []
  | t :: ts => render t :: renderAll ts

end

end TypeRef

structure Import where
  path : String
  isStatic : Bool
  isWildcard : Bool
  deriving Repr, Inhabited

structure Modifiers where
  isStatic : Bool := false
  isAbstract : Bool := false
  isPrivate : Bool := false
  isDefault : Bool := false
  isPublic : Bool := false
  deriving Repr, Inhabited

structure TypeParamDecl where
  name : String
  bound : Option TypeRef
  deriving Repr, Inhabited

structure Param where
  name : String
  type : TypeRef
  isVarargs : Bool
  deriving Repr, Inhabited

inductive Literal where
  | string | int | long | float | double | char | boolean | null | classObject
  deriving DecidableEq, Repr, Inhabited

/-- The constructor that a constructor starts with calling. -/
inductive CtorTarget where
  | this | super
  deriving DecidableEq, Repr, Inhabited

mutual

inductive Expr where
  /-- `bodyType` names the anonymous class that the expression declares, if any. -/
  | new (type : TypeRef) (args : List Expr) (bodyType : Option String) (line : Nat)
  | call (receiver : Receiver) (name : String) (args : List Expr) (line : Nat)
  | fieldAccess (receiver : Expr) (name : String)
  /-- A local, a field, a type or a part of a package name. -/
  | name (name : String)
  | this (qualifier : Option TypeRef)
  | super
  | literal (value : Literal)
  | binary (op : String) (left right : Expr)
  /-- `binding` is the pattern variable, if there is one. -/
  | instanceOf (value : Expr) (type : TypeRef) (binding : Option String)
  | assign (target value : Expr)
  | cast (type : TypeRef) (value : Expr)
  | conditional (condition yes no : Expr)
  | arrayAccess (array index : Expr)
  | arrayNew (type : TypeRef) (elements : List Expr)
  | lambda (params : List Param) (body : List Stmt)
  /-- `values` are the results of the arms and of `yield` statements. -/
  | switch (selector : Expr) (body : List Stmt) (values : List Expr)
  | methodRef (receiver : Expr) (name : String)
  /-- Anything else, with the expressions inside it. -/
  | other (parts : List Expr)

inductive Receiver where
  | implicit
  | super
  | qualifiedSuper (type : TypeRef)
  | expr (value : Expr)

inductive Stmt where
  | localVar (name : String) (type : TypeRef) (init : Option Expr)
  | forEach (name : String) (type : TypeRef) (iterable : Expr)
  | expr (value : Expr)
  | ret (value : Option Expr)
  | ctorCall (target : CtorTarget) (args : List Expr) (line : Nat)

end

instance : Inhabited Expr := ⟨.super⟩

inductive MethodDeclKind where
  | method | constructor
  deriving DecidableEq, Repr, Inhabited

structure MethodDecl where
  name : String
  kind : MethodDeclKind
  modifiers : Modifiers
  typeParams : List TypeParamDecl
  params : List Param
  /-- Constructors have none. -/
  ret : Option TypeRef
  /-- Abstract and native methods have none. -/
  body : Option (List Stmt)
  line : Nat

def MethodDecl.isVarargs (m : MethodDecl) : Bool := m.params.getLast?.any (·.isVarargs)

structure FieldDecl where
  name : String
  type : TypeRef
  isStatic : Bool
  init : Option Expr
  line : Nat

structure Initializer where
  isStatic : Bool
  body : List Stmt

structure TypeDecl where
  /-- Qualified name, such as `pkg.Outer$Inner`, or `pkg.Outer$1` for an anonymous class. -/
  name : String
  simpleName : String
  kind : TypeKind
  modifiers : Modifiers
  typeParams : List TypeParamDecl
  superclass : Option TypeRef
  interfaces : List TypeRef
  fields : List FieldDecl := []
  methods : List MethodDecl := []
  initializers : List Initializer := []
  /-- Qualified name of the type whose text encloses this one. -/
  enclosing : Option String
  line : Nat

/-- Whether the class has something to do when it is loaded. -/
def TypeDecl.hasStaticInit (d : TypeDecl) : Bool :=
  d.initializers.any (·.isStatic) || d.fields.any fun f => f.isStatic && f.init.isSome

structure CompilationUnit where
  path : String
  package : Option String
  imports : List Import
  /-- Nested, local and anonymous types included. -/
  types : List TypeDecl
  hasErrors : Bool

end JavaCallGraph
