import JavaCallGraph.Text.Blank
import JavaCallGraph.Tree
import JavaCallGraph.Unit

/-!
# Types, parameters and modifiers of a tree

The parts of a declaration that hold no code. The type that a node writes is a mark made bottom up
over the tree; wildcards stand for their upper bounds.
-/

namespace JavaCallGraph

/-- The characters outside angle brackets that are not blank. -/
def cleanChars (depth : Nat) : List Char → List Char
  | [] => []
  | c :: rest =>
    if c == '<' then cleanChars (depth + 1) rest
    else if c == '>' then cleanChars (depth - 1) rest
    else if depth == 0 && !isBlank c then c :: cleanChars depth rest
    else cleanChars depth rest

/-- A dotted name without generic arguments and blanks. -/
def cleanName (text : String) : String := String.ofList (cleanChars 0 text.toList)

def countDims (text : String) : Nat := text.toList.count '['

namespace Tree

variable {α : Type}

def objectRef : TypeRef := .named Descriptor.objectName

def dimsOf (cs : List (Tree α)) (missing : Nat) : Nat :=
  ((first? .dimensions cs).map (countDims ·.text)).getD missing

/-- The last named child that is no annotation on the type. -/
def lastType? (cs : List (Tree α)) : Option (Tree α) :=
  (named cs).reverse.find? (!·.kind.isAnnotating)

/-- The type that a node writes, from the types its children write. -/
def typeMark (t : Token) (cs : List (Tree TypeRef)) : TypeRef :=
  match t.kind with
  | .arrayType => (((first? .element cs).map mark).getD objectRef).addDims (dimsOf cs 1)
  | .genericType =>
    let (args, rest) := (named cs).partition (·.kind == .typeArguments)
    let names := (rest.map (cleanName ·.text)).filter (!·.isEmpty)
    let written := (args.getLast?.map namedChildren).getD []
    ⟨names.head?.getD "", (written.filter (!·.kind.isAnnotating)).map mark, 0⟩
  | .annotatedType => ((lastType? cs).map mark).getD objectRef
  | .wildcard =>
    if cs.any (·.kind == .superKeyword) then objectRef
    else ((lastType? cs).map mark).getD objectRef
  | _ => .named (cleanName t.text)

def typeRef (t : Tree α) : TypeRef := (t.annotate typeMark).mark

/-- The type under the label `type`. -/
def typeOr (t : Tree α) (missing : TypeRef) : TypeRef := ((t.child? .type).map typeRef).getD missing

def typeParam (t : Tree α) : TypeParamDecl where
  name := ((t.namedChildren.find? fun c => c.kind == .typeIdentifier || c.kind == .identifier).map
    text).getD ""
  bound := do
    let bound ← t.namedChildren.find? (·.kind == .typeBound)
    return (← bound.namedChildren.head?).typeRef

def typeParams (cs : List (Tree α)) : List TypeParamDecl :=
  match first? .typeParameters cs with
  | none => []
  | some list => (list.namedChildren.filter (·.kind == .typeParameter)).map typeParam

def inferredRef : TypeRef := .named "var"

/-- A parameter, if the node is one: with its type, with any number of arguments, or a bare name
in a lambda expression. -/
def param? (t : Tree α) : Option Param :=
  match t.kind with
  | .formalParameter =>
    some ⟨t.childText .name, (t.typeOr inferredRef).addDims (dimsOf t.children 0), false⟩
  | .spreadParameter =>
    let cs := t.namedChildren
    let type := cs.find? fun c =>
      c.kind != .modifiers && c.kind != .variableDeclarator && c.kind != .identifier
    let declared := (cs.find? (·.kind == .variableDeclarator)).bind (·.child? .name)
    let name := declared.or (cs.reverse.find? (·.kind == .identifier))
    some ⟨(name.map text).getD "", ((type.map typeRef).getD objectRef).addDims 1, true⟩
  | .identifier => some ⟨t.text, inferredRef, false⟩
  | _ => none

def params (list : Option (Tree α)) : List Param :=
  match list with
  | none => []
  | some list => list.namedChildren.filterMap param?

/-- The first dotted name, cleaned. -/
def dottedName? (cs : List (Tree α)) : Option String :=
  (cs.find? fun c => c.kind == .identifier || c.kind == .scopedIdentifier).map (cleanName ·.text)

def modifiers (cs : List (Tree α)) : Modifiers :=
  match (named cs).find? (·.kind == .modifiers) with
  | none => {}
  | some list =>
    { isStatic := list.hasChild .staticKeyword
      isAbstract := list.hasChild .abstractKeyword
      isPrivate := list.hasChild .privateKeyword
      isDefault := list.hasChild .defaultKeyword
      isPublic := list.hasChild .publicKeyword }

end Tree

end JavaCallGraph
