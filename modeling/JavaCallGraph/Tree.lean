/-!
# Concrete syntax trees

The tree of a Java file: each node has a kind of the grammar, the label under which its parent
holds it, its text and its first row. Of the tokens that the grammar does not name, a parser gives
all, and a listed tree only some (`Unit/Document`): those that have no label and are none of the
keywords among the kinds below can be missing, as nothing looks at them. Every node can carry a
mark; `annotate` gives each node a mark made from its own token and its annotated children.
-/

namespace JavaCallGraph

/-- Kinds of nodes that mean something to the reading of a file. -/
inductive Kind where
  | program | packageDeclaration | importDeclaration | scopedIdentifier | typeIdentifier
  | asterisk | modifiers | staticKeyword | abstractKeyword | privateKeyword | defaultKeyword
  | publicKeyword | newKeyword | arrayType | genericType | annotatedType | wildcard
  | typeArguments | annotationMark | markerAnnotationMark | typeParameter | typeBound | typeList
  | superInterfaces | extendsInterfaces | formalParameter | spreadParameter | variableDeclarator
  | classDeclaration | interfaceDeclaration | enumDeclaration | recordDeclaration
  | annotationTypeDeclaration | classBody | enumBodyDeclarations | enumConstant
  | fieldDeclaration | constantDeclaration | methodDeclaration | constructorDeclaration
  | compactConstructorDeclaration | staticInitializer | block | localVariableDeclaration
  | expressionStatement | returnStatement | yieldStatement | explicitConstructorInvocation
  | enhancedForStatement | catchFormalParameter | catchType | resource | breakStatement
  | continueStatement | labeledStatement | lineComment | blockComment | switchLabel | switchRule
  | dimensions | dimensionsExpr | assignmentExpression | binaryExpression | instanceofExpression
  | lambdaExpression | ternaryExpression | updateExpression | unaryExpression | castExpression
  | switchExpression | parenthesizedExpression | objectCreationExpression | fieldAccess
  | arrayAccess | methodInvocation | methodReference | arrayCreationExpression | arrayInitializer
  | classLiteral | thisKeyword | superKeyword | identifier | stringLiteral | textBlock
  | characterLiteral | decimalIntegerLiteral | hexIntegerLiteral | octalIntegerLiteral
  | binaryIntegerLiteral | decimalFloatingPointLiteral | hexFloatingPointLiteral | trueKeyword
  | falseKeyword | nullLiteral | templateExpression
  | other (name : String)
  deriving DecidableEq, Repr, Inhabited

namespace Kind

def table : List (String × Kind) := [
  ("program", program), ("package_declaration", packageDeclaration),
  ("import_declaration", importDeclaration), ("scoped_identifier", scopedIdentifier),
  ("type_identifier", typeIdentifier), ("asterisk", asterisk), ("modifiers", modifiers),
  ("static", staticKeyword), ("abstract", abstractKeyword), ("private", privateKeyword),
  ("default", defaultKeyword), ("public", publicKeyword), ("new", newKeyword),
  ("array_type", arrayType), ("generic_type", genericType), ("annotated_type", annotatedType),
  ("wildcard", wildcard), ("type_arguments", typeArguments), ("annotation", annotationMark),
  ("marker_annotation", markerAnnotationMark), ("type_parameter", typeParameter),
  ("type_bound", typeBound), ("type_list", typeList), ("super_interfaces", superInterfaces),
  ("extends_interfaces", extendsInterfaces), ("formal_parameter", formalParameter),
  ("spread_parameter", spreadParameter), ("variable_declarator", variableDeclarator),
  ("class_declaration", classDeclaration), ("interface_declaration", interfaceDeclaration),
  ("enum_declaration", enumDeclaration), ("record_declaration", recordDeclaration),
  ("annotation_type_declaration", annotationTypeDeclaration), ("class_body", classBody),
  ("enum_body_declarations", enumBodyDeclarations), ("enum_constant", enumConstant),
  ("field_declaration", fieldDeclaration), ("constant_declaration", constantDeclaration),
  ("method_declaration", methodDeclaration), ("constructor_declaration", constructorDeclaration),
  ("compact_constructor_declaration", compactConstructorDeclaration),
  ("static_initializer", staticInitializer), ("block", block),
  ("local_variable_declaration", localVariableDeclaration),
  ("expression_statement", expressionStatement), ("return_statement", returnStatement),
  ("yield_statement", yieldStatement),
  ("explicit_constructor_invocation", explicitConstructorInvocation),
  ("enhanced_for_statement", enhancedForStatement),
  ("catch_formal_parameter", catchFormalParameter), ("catch_type", catchType),
  ("resource", resource), ("break_statement", breakStatement),
  ("continue_statement", continueStatement), ("labeled_statement", labeledStatement),
  ("line_comment", lineComment), ("block_comment", blockComment), ("switch_label", switchLabel),
  ("switch_rule", switchRule), ("dimensions", dimensions), ("dimensions_expr", dimensionsExpr),
  ("assignment_expression", assignmentExpression), ("binary_expression", binaryExpression),
  ("instanceof_expression", instanceofExpression), ("lambda_expression", lambdaExpression),
  ("ternary_expression", ternaryExpression), ("update_expression", updateExpression),
  ("unary_expression", unaryExpression), ("cast_expression", castExpression),
  ("switch_expression", switchExpression), ("parenthesized_expression", parenthesizedExpression),
  ("object_creation_expression", objectCreationExpression), ("field_access", fieldAccess),
  ("array_access", arrayAccess), ("method_invocation", methodInvocation),
  ("method_reference", methodReference), ("array_creation_expression", arrayCreationExpression),
  ("array_initializer", arrayInitializer), ("class_literal", classLiteral),
  ("this", thisKeyword), ("super", superKeyword), ("identifier", identifier),
  ("string_literal", stringLiteral), ("text_block", textBlock),
  ("character_literal", characterLiteral), ("decimal_integer_literal", decimalIntegerLiteral),
  ("hex_integer_literal", hexIntegerLiteral), ("octal_integer_literal", octalIntegerLiteral),
  ("binary_integer_literal", binaryIntegerLiteral),
  ("decimal_floating_point_literal", decimalFloatingPointLiteral),
  ("hex_floating_point_literal", hexFloatingPointLiteral), ("true", trueKeyword),
  ("false", falseKeyword), ("null_literal", nullLiteral),
  ("template_expression", templateExpression)]

def ofName (name : String) : Kind := (table.lookup name).getD (.other name)

def isTypeDeclaration : Kind → Bool
  | .classDeclaration | .interfaceDeclaration | .enumDeclaration | .recordDeclaration
  | .annotationTypeDeclaration => true
  | _ => false

def isExpression : Kind → Bool
  | .assignmentExpression | .binaryExpression | .instanceofExpression | .lambdaExpression
  | .ternaryExpression | .updateExpression | .unaryExpression | .castExpression
  | .switchExpression | .parenthesizedExpression | .objectCreationExpression | .fieldAccess
  | .arrayAccess | .methodInvocation | .methodReference | .arrayCreationExpression
  | .arrayInitializer | .classLiteral | .thisKeyword | .superKeyword | .identifier
  | .stringLiteral | .textBlock | .characterLiteral | .decimalIntegerLiteral | .hexIntegerLiteral
  | .octalIntegerLiteral | .binaryIntegerLiteral | .decimalFloatingPointLiteral
  | .hexFloatingPointLiteral | .trueKeyword | .falseKeyword | .nullLiteral
  | .templateExpression => true
  | _ => false

def isAnnotating : Kind → Bool
  | .annotationMark | .markerAnnotationMark => true
  | _ => false

def isComment : Kind → Bool
  | .lineComment | .blockComment => true
  | _ => false

end Kind

/-- Labels under which a node holds its children. -/
inductive Label where
  | name | type | dimensions | element | typeParameters | superclass | parameters | body
  | declarator | value | arguments | constructor | object | field | operator | left | right
  | condition | consequence | alternative | array | index
  | other (name : String)
  deriving DecidableEq, Repr, Inhabited

namespace Label

def table : List (String × Label) := [
  ("name", name), ("type", type), ("dimensions", dimensions), ("element", element),
  ("type_parameters", typeParameters), ("superclass", superclass), ("parameters", parameters),
  ("body", body), ("declarator", declarator), ("value", value), ("arguments", arguments),
  ("constructor", constructor), ("object", object), ("field", field), ("operator", operator),
  ("left", left), ("right", right), ("condition", condition), ("consequence", consequence),
  ("alternative", alternative), ("array", array), ("index", index)]

def ofName (name : String) : Label := (table.lookup name).getD (.other name)

end Label

structure Token where
  kind : Kind
  label : Option Label
  /-- Named by the grammar, as opposed to a keyword or an operator. -/
  isNamed : Bool
  text : String
  /-- The first row, counted from zero. -/
  row : Nat
  deriving Repr, Inhabited

inductive Tree (α : Type) where
  | node (token : Token) (mark : α) (children : List (Tree α))
  deriving Inhabited

namespace Tree

variable {α β : Type}

def token : Tree α → Token
  | .node t _ _ => t

def mark : Tree α → α
  | .node _ m _ => m

def children : Tree α → List (Tree α)
  | .node _ _ cs => cs

def kind (t : Tree α) : Kind := t.token.kind

def text (t : Tree α) : String := t.token.text

/-- The line on which a node starts, counted from one. -/
def line (t : Tree α) : Nat := t.token.row + 1

def named (cs : List (Tree α)) : List (Tree α) := cs.filter (·.token.isNamed)

def labelled (label : Label) (cs : List (Tree α)) : List (Tree α) :=
  cs.filter (·.token.label == some label)

def first? (label : Label) (cs : List (Tree α)) : Option (Tree α) :=
  cs.find? (·.token.label == some label)

def namedChildren (t : Tree α) : List (Tree α) := named t.children

/-- The first child with a label. -/
def child? (t : Tree α) (label : Label) : Option (Tree α) := first? label t.children

def hasChild (t : Tree α) (kind : Kind) : Bool := t.children.any (·.kind == kind)

def childText (t : Tree α) (label : Label) : String := ((t.child? label).map text).getD ""

mutual

/-- Marks every node from its token and its marked children. -/
def annotate (f : Token → List (Tree β) → β) : Tree α → Tree β
  | .node t _ cs =>
    let marked := annotateAll f cs
    .node t (f t marked) marked

def annotateAll (f : Token → List (Tree β) → β) : List (Tree α) → List (Tree β)
  | [] => []
  | c :: cs => annotate f c :: annotateAll f cs

end

theorem annotateAll_eq_map (f : Token → List (Tree β) → β) (cs : List (Tree α)) :
    annotateAll f cs = cs.map (annotate f) := by
  induction cs with
  | nil => rfl
  | cons c cs ih => simp [annotateAll, ih]

end Tree

/-- A tree whose nodes carry nothing. -/
abbrev SyntaxTree := Tree Unit

/-! ### Trees listed in pre-order -/

/-- A node of a listed tree; `start` and `stop` are byte positions in the text of the file. -/
structure Entry where
  depth : Nat
  kind : String
  isNamed : Bool
  label : String
  start : Nat
  stop : Nat
  row : Nat

namespace Entry

/-- The text between two byte positions, empty if they do not cut between characters. -/
def slice (source : ByteArray) (start stop : Nat) : String :=
  (String.fromUTF8? (source.extract start stop)).getD ""

def token (e : Entry) (source : ByteArray) : Token where
  kind := .ofName e.kind
  label := if e.label.isEmpty then none else some (.ofName e.label)
  isNamed := e.isNamed
  text := slice source e.start e.stop
  row := e.row

/-- Puts an entry before the trees that follow it: those deeper than it, up to the first that is
not, are its children. -/
def attach (source : ByteArray) (e : Entry) (following : List (Nat × SyntaxTree)) :
    List (Nat × SyntaxTree) :=
  let isInner (p : Nat × SyntaxTree) : Bool := e.depth < p.1
  (e.depth, .node (e.token source) () ((following.takeWhile isInner).map (·.2))) ::
    following.dropWhile isInner

end Entry

/-- The tree whose nodes are listed in pre-order. -/
def Tree.ofPreorder? (source : String) (entries : List Entry) : Option SyntaxTree :=
  ((entries.foldr (Entry.attach source.toUTF8) []).head?).map (·.2)

end JavaCallGraph
