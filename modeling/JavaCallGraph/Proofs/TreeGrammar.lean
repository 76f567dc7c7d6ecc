import JavaCallGraph.Proofs.TreeCalls
import Mathlib.Data.List.Nodup

/-!
# How the nodes of a file fit together

`Grammatical` says where code stands in a node of a file without syntax errors, and `Legal` what the
language asks beyond its grammar, both as far as calls are concerned.
-/

namespace JavaCallGraph

/-! ### Kinds of nodes -/

namespace Kind

def isLeaf : Kind → Bool
  | .identifier | .thisKeyword | .superKeyword | .characterLiteral | .decimalIntegerLiteral
  | .hexIntegerLiteral | .octalIntegerLiteral | .binaryIntegerLiteral
  | .decimalFloatingPointLiteral | .hexFloatingPointLiteral | .trueKeyword | .falseKeyword
  | .nullLiteral | .classLiteral | .breakStatement | .continueStatement | .lineComment
  | .blockComment | .catchFormalParameter => true
  | _ => false

def listsExprs : Kind → Bool
  | .parenthesizedExpression | .returnStatement | .yieldStatement | .expressionStatement
  | .arrayInitializer | .dimensionsExpr | .unaryExpression | .updateExpression
  | .templateExpression | .methodReference | .resource => true
  | .other name => name == "argument_list"
  | _ => false

def isBlock : Kind → Bool
  | .block => true
  | .other name => name == "constructor_body"
  | _ => false

def isTypeBody : Kind → Bool
  | .classBody => true
  | .other name => ["interface_body", "enum_body", "annotation_type_body"].contains name
  | _ => false

def isArm : Kind → Bool
  | .switchRule => true
  | .other name => name == "switch_block_statement_group"
  | _ => false

def declaresVariables : Kind → Bool
  | .localVariableDeclaration | .fieldDeclaration | .constantDeclaration => true
  | _ => false

def isMember : Kind → Bool
  | .fieldDeclaration | .constantDeclaration | .methodDeclaration | .constructorDeclaration
  | .block | .staticInitializer | .enumConstant | .enumBodyDeclarations => true
  | kind => kind.isTypeDeclaration

/-- Parts of a switch, of an enum and of a file, which stand nowhere else. -/
def isPart : Kind → Bool
  | .program | .switchLabel | .enumConstant | .enumBodyDeclarations => true
  | .other name => name == "switch_block" || name == "enum_body" || isArm (.other name)
  | kind => kind.isArm

def holdsParts : Kind → Bool
  | .switchExpression | .enumDeclaration => true
  | kind => kind.isPart

/-- The labels under which a node holds all of its code. -/
def slots : Kind → Option (List Label)
  | .methodInvocation | .explicitConstructorInvocation => some [.object, .arguments]
  | .fieldAccess => some [.object]
  | .assignmentExpression | .binaryExpression => some [.left, .right]
  | .instanceofExpression => some [.left]
  | .castExpression | .variableDeclarator => some [.value]
  | .ternaryExpression => some [.condition, .consequence, .alternative]
  | .arrayAccess => some [.array, .index]
  | .switchExpression => some [.condition, .body]
  | .enhancedForStatement => some [.value, .body]
  | .enumConstant => some [.arguments, .body]
  | .lambdaExpression | .methodDeclaration | .constructorDeclaration
  | .compactConstructorDeclaration => some [.body]
  | kind => if kind.isTypeDeclaration then some [.body] else none

theorem eq_of_isComment {kind : Kind} (h : kind.isComment) :
    kind = .lineComment ∨ kind = .blockComment := by
  unfold isComment at h
  split at h <;> simp_all

theorem isLeaf_of_isComment {kind : Kind} (h : kind.isComment) : kind.isLeaf := by
  rcases eq_of_isComment h with rfl | rfl <;> rfl

theorem eq_of_isBlock {kind : Kind} (h : kind.isBlock) :
    kind = .block ∨ kind = .other "constructor_body" := by
  unfold isBlock at h
  split at h <;> simp_all

theorem eq_of_isTypeBody {kind : Kind} (h : kind.isTypeBody) : kind = .classBody ∨
    kind = .other "interface_body" ∨ kind = .other "enum_body" ∨
      kind = .other "annotation_type_body" := by
  unfold isTypeBody at h
  split at h <;> simp_all

theorem eq_of_isArm {kind : Kind} (h : kind.isArm) :
    kind = .switchRule ∨ kind = .other "switch_block_statement_group" := by
  unfold isArm at h
  split at h <;> simp_all

theorem eq_of_declaresVariables {kind : Kind} (h : kind.declaresVariables) :
    kind = .localVariableDeclaration ∨ kind = .fieldDeclaration ∨ kind = .constantDeclaration := by
  unfold declaresVariables at h
  split at h <;> simp_all

theorem eq_of_isTypeDeclaration {kind : Kind} (h : kind.isTypeDeclaration) :
    kind = .classDeclaration ∨ kind = .interfaceDeclaration ∨ kind = .enumDeclaration ∨
      kind = .recordDeclaration ∨ kind = .annotationTypeDeclaration := by
  unfold isTypeDeclaration at h
  split at h <;> simp_all

/-- What a node may hold under a label: an expression, unless the label says otherwise. -/
def admits (kind : Kind) (label : Label) (c : Kind) : Bool :=
  match label, kind with
  | .arguments, _ => c == .other "argument_list"
  | .body, .switchExpression => c == .other "switch_block"
  | .body, .enhancedForStatement => !c.isPart
  | .body, .lambdaExpression => c.isExpression || c.isBlock
  | .body, .recordDeclaration | .body, .enumConstant => c == .classBody
  | .body, kind => if kind.isTypeDeclaration then c.isTypeBody else c.isBlock
  | _, _ => c.isExpression

theorem admits_operand {label : Label} (hbody : label ≠ .body) (hargs : label ≠ .arguments)
    (kind c : Kind) : kind.admits label c = c.isExpression := by
  unfold admits
  split <;> simp_all

def isOpen (kind : Kind) : Bool := !kind.hides && !kind.collectsYields

theorem isOpen_of_isComment {kind : Kind} (h : kind.isComment) : kind.isOpen := by
  rcases eq_of_isComment h with rfl | rfl <;> rfl

theorem isOpen_of_isBlock {kind : Kind} (h : kind.isBlock) : kind.isOpen := by
  rcases eq_of_isBlock h with rfl | rfl <;> rfl

theorem isOpen_of_isTypeBody {kind : Kind} (h : kind.isTypeBody) : kind.isOpen := by
  rcases eq_of_isTypeBody h with rfl | rfl | rfl | rfl <;> rfl

theorem isOpen_of_isArm {kind : Kind} (h : kind.isArm) : kind.isOpen := by
  rcases eq_of_isArm h with rfl | rfl <;> rfl

theorem isOpen_of_declaresVariables {kind : Kind} (h : kind.declaresVariables) : kind.isOpen := by
  rcases eq_of_declaresVariables h with rfl | rfl | rfl <;> rfl

theorem isOpen_of_isTypeDeclaration {kind : Kind} (h : kind.isTypeDeclaration) : kind.isOpen := by
  rcases eq_of_isTypeDeclaration h with rfl | rfl | rfl | rfl | rfl <;> rfl

theorem slots_of_isTypeDeclaration {kind : Kind} (h : kind.isTypeDeclaration) :
    kind.slots = some [.body] := by
  rcases eq_of_isTypeDeclaration h with rfl | rfl | rfl | rfl | rfl <;> rfl

end Kind

namespace Tree

variable {α β : Type}

/-! ### How nodes fit together -/

@[mk_iff]
structure Slotted (kind : Kind) (labels : List Label) (cs : List (Tree α)) : Prop where
  outside : ∀ c ∈ cs, c.calls = [] ∨ ∃ label ∈ labels, c.token.label = some label
  once : ∀ label ∈ labels, (labelled label cs).length ≤ 1
  admitted : ∀ label ∈ labels, ∀ c ∈ labelled label cs, kind.admits label c.kind

section Sums

variable {cs : List (Tree α)} {w : Tree α → Nat}

theorem sum_ite (p : Tree α → Bool) :
    (cs.map fun c => if p c then w c else 0).sum = ((cs.filter p).map w).sum := by
  rw [List.sum_map_ite]
  simp

theorem sum_filter_add_sum_filter_not (cs : List (Tree α)) (w : Tree α → Nat)
    (p : Tree α → Bool) :
    ((cs.filter p).map w).sum + ((cs.filter (!p ·)).map w).sum = (cs.map w).sum := by
  simpa using List.sum_map_filter_add_sum_map_filter_not (fun c => p c) w cs

theorem sum_eq_zero (h : ∀ c ∈ cs, w c = 0) : (cs.map w).sum = 0 :=
  List.sum_eq_zero (by simpa using h)

/-- Children without weight may be left out. -/
theorem sum_filter {p : Tree α → Bool} (h : ∀ c ∈ cs, p c ∨ w c = 0) :
    ((cs.filter p).map w).sum = (cs.map w).sum := by
  have hrest : ((cs.filter (!p ·)).map w).sum = 0 := by
    refine sum_eq_zero fun c hc => ?_
    obtain ⟨hmem, hnot⟩ := List.mem_filter.mp hc
    exact (h c hmem).resolve_left (by simpa using hnot)
  have hsplit := sum_filter_add_sum_filter_not cs w p
  rwa [hrest, Nat.add_zero] at hsplit

/-- The weight of the children of a class that has one member at most. -/
theorem sum_filter_of_length_le_one {p : Tree α → Bool} (h : (cs.filter p).length ≤ 1) :
    ((cs.filter p).map w).sum = ((cs.find? p).map w).getD 0 := by
  rw [← List.head?_filter]
  match hlist : cs.filter p with
  | [] => rfl
  | [c] => simp
  | c :: d :: rest =>
    rw [hlist] at h
    simp at h

/-- Weight that only labelled children have is found label by label. -/
theorem sum_eq_sum_labelled {labels : List Label} (hlabels : labels.Nodup)
    (h : ∀ c ∈ cs, w c = 0 ∨ ∃ label ∈ labels, c.token.label = some label) :
    (cs.map w).sum = (labels.map fun label => ((labelled label cs).map w).sum).sum := by
  induction cs with
  | nil => simp [labelled]
  | cons c cs ih =>
    have hhead : w c = (labels.map fun label =>
        if c.token.label = some label then w c else 0).sum := by
      rcases h c List.mem_cons_self with hzero | ⟨label, hlabel, hc⟩
      · simp [hzero]
      · rw [List.sum_map_eq_nsmul_single label, List.count_eq_one_of_mem hlabels hlabel, hc]
        · simp
        · intro other hother _
          rw [hc, if_neg]
          simpa using hother.symm
    rw [List.map_cons, List.sum_cons, ih fun d hd => h d (List.mem_cons_of_mem c hd), hhead,
      ← List.sum_map_add]
    congr 2
    funext label
    by_cases hc : c.token.label = some label
    · simp [labelled, hc]
    · simp [labelled, hc]

theorem Slotted.sum_eq {kind : Kind} {labels : List Label} (h : Slotted kind labels cs)
    (hlabels : labels.Nodup) (hw : ∀ c ∈ cs, c.calls = [] → w c = 0) :
    (cs.map w).sum = (labels.map fun label => ((first? label cs).map w).getD 0).sum := by
  rw [sum_eq_sum_labelled hlabels fun c hc => (h.outside c hc).imp_left (hw c hc)]
  congr 1
  exact List.map_congr_left fun label hlabel => sum_filter_of_length_le_one (h.once label hlabel)

end Sums

/-- A node and its children as the grammar has them, as far as calls are concerned. Tokens that it
does not name, such as braces and commas, can stand anywhere. Annotations hold constants, so that
there are no calls in them. -/
@[mk_iff]
structure Grammatical (t : Tree α) : Prop where
  leaf : t.kind.isLeaf ∨ t.token.isNamed = false → t.calls = []
  slots : ∀ labels ∈ t.kind.slots, Slotted t.kind labels t.children
  exprs : t.kind.listsExprs → ∀ c ∈ t.children, c.kind.isExpression ∨ c.calls = []
  single : t.kind.holdsExpr → (t.namedChildren.filter (!·.kind.isComment)).length ≤ 1
  access : t.kind = .fieldAccess → (t.child? .object).isSome ∧ (t.child? .field).isSome
  creation : t.kind = .objectCreationExpression → ∀ c ∈ t.children, c.kind.isExpression ∨
    c.calls = [] ∨ c.token.label = some .arguments ∨ c.kind = .classBody
  creationOnce : t.kind = .objectCreationExpression →
    (labelled .arguments t.children).length ≤ 1 ∧
      (t.children.filter (·.kind == .classBody)).length ≤ 1 ∧
      ∀ c ∈ labelled .arguments t.children, c.kind = .other "argument_list"
  array : t.kind = .arrayCreationExpression → ∀ c ∈ t.children,
    c.calls = [] ∨ c.kind = .dimensionsExpr ∨ c.kind = .arrayInitializer
  reference : t.kind = .methodReference → ∀ c ∈ t.namedChildren.tail, c.calls = []
  resource : t.kind = .resource → (t.child? .name).isSome → Slotted t.kind [.value] t.children
  declarators : t.kind.declaresVariables → ∀ c ∈ t.children,
    if c.token.label = some .declarator then c.kind = .variableDeclarator else c.calls = []
  initializer : t.kind = .staticInitializer → (∀ c ∈ t.children, c.kind = .block ∨ c.calls = []) ∧
    (t.children.filter (·.kind == .block)).length ≤ 1
  arms : t.kind = .other "switch_block" → ∀ c ∈ t.namedChildren, c.kind.isArm ∨ c.kind.isComment
  armParts : t.kind.isArm → ∀ c ∈ t.children, c.kind = .switchLabel ∨ c.kind.isPart = false
  members : t.kind.isTypeBody ∨ t.kind = .enumBodyDeclarations → ∀ c ∈ t.children,
    c.kind.isMember ∨ c.kind = .compactConstructorDeclaration ∨ c.calls = []
  parts : t.kind.holdsParts = false → ∀ c ∈ t.children, c.kind.isPart = false

def sameTypes (params components : List Param) : Bool :=
  params.length == components.length && (params.zip components).all fun (a, b) => a.type == b.type

/-- What the language asks of a node beyond the grammar, as far as calls are concerned: a `yield`
does not leave a lambda expression, and a compact constructor is the only canonical one of a
record. -/
@[mk_iff]
structure Legal (t : Tree α) : Prop where
  lambda : t.kind = .lambdaExpression → ∀ body ∈ t.child? .body, body.yieldsOut = false
  compact : t.kind ≠ .recordDeclaration →
    ∀ body ∈ t.children, ∀ c ∈ body.children, c.kind ≠ .compactConstructorDeclaration
  compactOnce : t.kind = .recordDeclaration → ∀ body ∈ t.child? .body,
    (body.children.filter (·.kind == .compactConstructorDeclaration)).length ≤ 1
  canonical : t.kind = .recordDeclaration → ∀ body ∈ t.child? .body,
    body.hasChild .compactConstructorDeclaration → ∀ c ∈ body.children,
      c.kind = .constructorDeclaration →
        sameTypes (params (c.child? .parameters)) (params (t.child? .parameters)) = false

/-- The tree of a file that can be compiled, as far as calls are concerned. -/
@[mk_iff]
structure IsFile (t : Tree α) : Prop where
  program : t.kind = .program
  nodes : t.Everywhere fun t => t.Grammatical ∧ t.Legal

section Annotate

variable (f : Token → List (Tree β) → β)

theorem Slotted.annotate {kind : Kind} {labels : List Label} {cs : List (Tree α)}
    (h : Slotted kind labels cs) : Slotted kind labels (cs.map (annotate f)) where
  outside := by simpa using h.outside
  once := by simpa using h.once
  admitted := by simpa using h.admitted

theorem Grammatical.annotate {t : Tree α} (h : t.Grammatical) : (t.annotate f).Grammatical where
  leaf := by simpa using h.leaf
  slots labels hlabels := by
    rw [kind_annotate] at hlabels
    rw [kind_annotate, children_annotate]
    exact (h.slots labels hlabels).annotate f
  exprs := by simpa using h.exprs
  single := by simpa [List.filter_map, Function.comp_def] using h.single
  access := by simpa using h.access
  creation := by simpa using h.creation
  creationOnce := by simpa [List.filter_map, Function.comp_def] using h.creationOnce
  array := by simpa using h.array
  reference := by simpa [← List.map_tail] using h.reference
  resource hkind hname := by
    rw [kind_annotate] at hkind
    rw [kind_annotate, children_annotate]
    exact (h.resource hkind (by simpa using hname)).annotate f
  declarators := by simpa using h.declarators
  initializer := by simpa [List.filter_map, Function.comp_def] using h.initializer
  arms := by simpa using h.arms
  armParts := by simpa using h.armParts
  members := by simpa using h.members
  parts := by simpa using h.parts

theorem Legal.annotate {t : Tree α} (h : t.Legal) : (t.annotate f).Legal where
  lambda := by simpa using h.lambda
  compact := by simpa using h.compact
  compactOnce := by simpa [List.filter_map, Function.comp_def] using h.compactOnce
  canonical := by simpa using h.canonical

end Annotate

instance (kind : Kind) (labels : List Label) (cs : List (Tree α)) :
    Decidable (Slotted kind labels cs) := decidable_of_iff' _ (slotted_iff kind labels cs)

set_option synthInstance.maxSize 400 in
instance (t : Tree α) : Decidable t.Grammatical := decidable_of_iff' _ (grammatical_iff t)

instance (t : Tree α) : Decidable t.Legal := decidable_of_iff' _ (legal_iff t)

instance (t : Tree α) : Decidable t.IsFile := decidable_of_iff' _ (isFile_iff t)

end Tree

end JavaCallGraph
