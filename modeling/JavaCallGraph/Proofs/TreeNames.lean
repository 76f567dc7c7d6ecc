import JavaCallGraph.Proofs.SignatureCodec
import JavaCallGraph.Unit.Types
import Mathlib.Tactic.MkIffOfInductiveProp

/-!
# Names in trees

The names of a file that can get into a signature stand in its package, its imports, and the heads
of its declarations. `NamesReadable` says of one node that the names it brings in can be read back,
and `Everywhere` says so of all nodes of a tree. Marking a tree anew changes neither.
-/

namespace JavaCallGraph

/-! ### Names of types -/

def Undelimited (name : String) : Prop := ':' ∉ name.toList ∧ ';' ∉ name.toList

instance (name : String) : Decidable (Undelimited name) := inferInstanceAs (Decidable (_ ∧ _))

theorem Undelimited.append {a b : String} (ha : Undelimited a) (hb : Undelimited b) :
    Undelimited (a ++ b) := by
  unfold Undelimited at *
  simp only [String.toList_append, List.mem_append, not_or]
  exact ⟨⟨ha.1, hb.1⟩, ha.2, hb.2⟩

@[mk_iff]
structure NamesType (name : String) : Prop where
  undelimited : Undelimited name
  simple : EndsBefore '(' (simpleName name)

instance (name : String) : Decidable (NamesType name) := decidable_of_iff' _ (namesType_iff name)

namespace NamesType

variable {name : String}

theorem ne_empty (h : NamesType name) : name ≠ "" := by
  rintro rfl
  exact h.simple.1 rfl

theorem endsBefore_colon (h : NamesType name) : EndsBefore ':' name :=
  ⟨h.ne_empty, h.undelimited.1⟩

theorem endsBefore_semicolon (h : NamesType name) : EndsBefore ';' name :=
  ⟨h.ne_empty, h.undelimited.2⟩

end NamesType

theorem simpleName_append {front separator name : String}
    (h : separator = "." ∨ separator = "$") :
    simpleName (front ++ separator ++ name) = simpleName name := by
  have hstop (c : Char) (hc : (c != '.' && c != '$') = false) (rest back : List Char) :
      (back ++ c :: rest).takeWhile (fun c => c != '.' && c != '$') =
        back.takeWhile fun c => c != '.' && c != '$' := by
    induction back with
    | nil => simp [hc]
    | cons d back ih => simp [List.takeWhile_cons, ih]
  unfold simpleName
  congr 2
  rcases h with rfl | rfl
  · simpa using hstop '.' (by decide) front.toList.reverse name.toList.reverse
  · simpa using hstop '$' (by decide) front.toList.reverse name.toList.reverse

/-- The name of a type inside a package or inside another type. -/
theorem NamesType.inside {front separator name : String} (h : NamesType name)
    (hseparator : separator = "." ∨ separator = "$") (hfront : Undelimited front) :
    NamesType (front ++ separator ++ name) := by
  have hmiddle : Undelimited separator := by
    rcases hseparator with rfl | rfl
    · decide
    · decide
  refine ⟨(hfront.append hmiddle).append h.undelimited, ?_⟩
  rw [simpleName_append hseparator]
  exact h.simple

namespace Tree

variable {α β γ : Type}

/-! ### Marking a tree anew -/

section Annotate

variable (f : Token → List (Tree β) → β)

@[simp] theorem token_annotate (t : Tree α) : (t.annotate f).token = t.token := by
  cases t
  rfl

@[simp] theorem kind_annotate (t : Tree α) : (t.annotate f).kind = t.kind := by simp [kind]

@[simp] theorem text_annotate (t : Tree α) : (t.annotate f).text = t.text := by simp [text]

@[simp] theorem children_annotate (t : Tree α) :
    (t.annotate f).children = t.children.map (annotate f) := by
  cases t
  exact annotateAll_eq_map f _

@[simp] theorem named_map_annotate (cs : List (Tree α)) :
    named (cs.map (annotate f)) = (named cs).map (annotate f) := by
  simp [named, List.filter_map, Function.comp_def]

@[simp] theorem first?_map_annotate (label : Label) (cs : List (Tree α)) :
    first? label (cs.map (annotate f)) = (first? label cs).map (annotate f) := by
  simp only [first?, List.find?_map, Function.comp_def, token_annotate]

@[simp] theorem namedChildren_annotate (t : Tree α) :
    (t.annotate f).namedChildren = t.namedChildren.map (annotate f) := by simp [namedChildren]

@[simp] theorem child?_annotate (t : Tree α) (label : Label) :
    (t.annotate f).child? label = (t.child? label).map (annotate f) := by simp [child?]

@[simp] theorem childText_annotate (t : Tree α) (label : Label) :
    (t.annotate f).childText label = t.childText label := by
  simp [childText, Function.comp_def]

@[simp] theorem dottedName?_map_annotate (cs : List (Tree α)) :
    dottedName? (cs.map (annotate f)) = dottedName? cs := by
  simp [dottedName?, List.find?_map, Function.comp_def]

end Annotate

mutual

theorem annotate_annotate (f : Token → List (Tree β) → β) (g : Token → List (Tree γ) → γ) :
    (t : Tree α) → (t.annotate f).annotate g = t.annotate g
  | .node t m cs => by
    simp only [annotate]
    rw [annotateAll_annotateAll f g cs]

theorem annotateAll_annotateAll (f : Token → List (Tree β) → β)
    (g : Token → List (Tree γ) → γ) :
    (cs : List (Tree α)) → annotateAll g (annotateAll f cs) = annotateAll g cs
  | [] => rfl
  | c :: cs => by
    simp only [annotateAll]
    rw [annotate_annotate f g c, annotateAll_annotateAll f g cs]

end

section Annotate

variable (f : Token → List (Tree β) → β)

@[simp] theorem typeRef_annotate (t : Tree α) : (t.annotate f).typeRef = t.typeRef := by
  rw [typeRef, annotate_annotate, typeRef]

@[simp] theorem param?_annotate (t : Tree α) : (t.annotate f).param? = t.param? := by
  unfold param?
  rw [kind_annotate]
  split
  · simp [typeOr, dimsOf, Function.comp_def]
  · dsimp only
    rw [namedChildren_annotate, ← List.map_reverse]
    simp [-List.map_reverse, List.find?_map, Option.map_or, Option.map_bind, Option.bind_map,
      Function.comp_def]
  · simp
  · rfl

@[simp] theorem params_map_annotate (list : Option (Tree α)) :
    params (list.map (annotate f)) = params list := by
  cases list with
  | none => rfl
  | some list => simp only [Option.map_some, params, namedChildren_annotate, List.filterMap_map,
      Function.comp_def, param?_annotate]

end Annotate

/-! ### Readable names -/

@[mk_iff]
structure NamesReadable (t : Tree α) : Prop where
  package : t.kind = .packageDeclaration →
    ∀ name ∈ dottedName? t.namedChildren, Undelimited name
  path : t.kind = .importDeclaration → ∀ name ∈ dottedName? t.children, ';' ∉ name.toList
  type : t.kind.isTypeDeclaration → NamesType (t.childText .name)
  method : t.kind = .methodDeclaration → EndsBefore '(' (t.childText .name)
  result : t.kind = .methodDeclaration → ∀ r ∈ t.child? .type, EndsBefore ';' r.typeRef.name
  params : t.kind = .methodDeclaration ∨ t.kind = .constructorDeclaration ∨
    t.kind = .recordDeclaration → ∀ p ∈ params (t.child? .parameters), EndsBefore ';' p.type.name
  components : t.kind = .recordDeclaration →
    ∀ p ∈ Tree.params (t.child? .parameters), EndsBefore '(' p.name

theorem NamesReadable.annotate {t : Tree α} (h : t.NamesReadable)
    (f : Token → List (Tree β) → β) : (t.annotate f).NamesReadable where
  package := by simpa using h.package
  path := by simpa using h.path
  type := by simpa using h.type
  method := by simpa using h.method
  result := by simpa using h.result
  params := by simpa using h.params
  components := by simpa using h.components

mutual

def Everywhere (P : Tree α → Prop) : Tree α → Prop
  | .node t m cs => P (.node t m cs) ∧ EverywhereIn P cs

def EverywhereIn (P : Tree α → Prop) : List (Tree α) → Prop
  | [] => True
  | c :: cs => Everywhere P c ∧ EverywhereIn P cs

end

theorem everywhereIn_iff {P : Tree α → Prop} {cs : List (Tree α)} :
    EverywhereIn P cs ↔ ∀ c ∈ cs, c.Everywhere P := by
  induction cs with
  | nil => simp [EverywhereIn]
  | cons c cs ih => simp [EverywhereIn, ih]

theorem everywhere_iff {P : Tree α → Prop} {t : Tree α} :
    t.Everywhere P ↔ P t ∧ ∀ c ∈ t.children, c.Everywhere P := by
  cases t with
  | node t m cs => rw [Everywhere, everywhereIn_iff, children]

section Induction

variable {P : Tree α → Prop} {Q : Tree β → Prop} {f : Token → List (Tree β) → β}

mutual

/-- What a marked node has when the nodes below it have it holds everywhere in the marked tree. -/
theorem Everywhere.annotate (hstep : ∀ t : Tree α, P t →
    (∀ c ∈ (t.annotate f).children, c.Everywhere Q) → Q (t.annotate f)) :
    {t : Tree α} → t.Everywhere P → (t.annotate f).Everywhere Q
  | .node t m cs, h => by
    have hchildren := everywhereIn_iff.mp (EverywhereIn.annotateAll hstep h.2)
    exact everywhere_iff.mpr ⟨hstep _ h.1 hchildren, hchildren⟩

theorem EverywhereIn.annotateAll (hstep : ∀ t : Tree α, P t →
    (∀ c ∈ (t.annotate f).children, c.Everywhere Q) → Q (t.annotate f)) :
    {cs : List (Tree α)} → EverywhereIn P cs → EverywhereIn Q (annotateAll f cs)
  | [], _ => trivial
  | _ :: _, h => ⟨Everywhere.annotate hstep h.1, EverywhereIn.annotateAll hstep h.2⟩

end

end Induction

section Decidable

variable (P : Tree α → Prop) [DecidablePred P]

mutual

instance decidableEverywhere : (t : Tree α) → Decidable (t.Everywhere P)
  | .node t m cs =>
    have := decidableEverywhereIn cs
    inferInstanceAs (Decidable (P (.node t m cs) ∧ EverywhereIn P cs))

instance decidableEverywhereIn : (cs : List (Tree α)) → Decidable (EverywhereIn P cs)
  | [] => inferInstanceAs (Decidable True)
  | c :: cs =>
    have := decidableEverywhere c
    have := decidableEverywhereIn cs
    inferInstanceAs (Decidable (c.Everywhere P ∧ EverywhereIn P cs))

end

end Decidable

instance (t : Tree α) : Decidable t.NamesReadable := decidable_of_iff' _ (namesReadable_iff t)

/-! ### Trees written out, on one row -/

def leaf (kind : Kind) (text : String) : SyntaxTree := .node ⟨kind, none, true, text, 0⟩ () []

def symbol (text : String) : SyntaxTree := .node ⟨.ofName text, none, false, text, 0⟩ () []

/-- A named node, with a blank between the texts of its children. -/
def phrase (kind : Kind) (children : List SyntaxTree) : SyntaxTree :=
  .node ⟨kind, none, true, " ".intercalate (children.map text), 0⟩ () children

def under (label : Label) (t : SyntaxTree) : SyntaxTree :=
  .node { t.token with label := some label } () t.children

def word (text : String) : SyntaxTree := leaf .identifier text

def typeName (name : String) : SyntaxTree := leaf .typeIdentifier name

def parenthesized (kind : Kind) (children : List SyntaxTree) : SyntaxTree :=
  phrase kind (symbol "(" :: children ++ [symbol ")"])

def braced (kind : Kind) (children : List SyntaxTree) : SyntaxTree :=
  phrase kind (symbol "\x7b" :: children ++ [symbol "\x7d"])

def argumentList (args : List SyntaxTree) : SyntaxTree :=
  under .arguments (parenthesized (.other "argument_list") (args.intersperse (symbol ",")))

def statement (e : SyntaxTree) : SyntaxTree := phrase .expressionStatement [e, symbol ";"]

def creation (name : String) (args members : List SyntaxTree) : SyntaxTree :=
  phrase .objectCreationExpression
    ([symbol "new", under .type (typeName name), argumentList args] ++ members)

def methodOf (name : String) (params stmts : List SyntaxTree) : SyntaxTree :=
  phrase .methodDeclaration [under .type (leaf (.other "void_type") "void"),
    under .name (word name),
    under .parameters (parenthesized (.other "formal_parameters")
      (params.intersperse (symbol ","))),
    under .body (braced .block stmts)]

def classOf (name : String) (members : List SyntaxTree) : SyntaxTree :=
  phrase .classDeclaration [symbol "class", under .name (word name),
    under .body (braced .classBody members)]

def packageOf (name : String) : SyntaxTree :=
  phrase .packageDeclaration [symbol "package", word name, symbol ";"]

def fileOf (parts : List SyntaxTree) : SyntaxTree := phrase .program parts

end Tree

end JavaCallGraph
