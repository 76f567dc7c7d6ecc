import JavaCallGraph.Proofs.TreeGrammar

/-!
# Trees without some of their comments

A tree with a flag at each node stands for the tree without the flagged nodes. Reading a tree picks
most children by label or kind, so that comments make no difference. `Tree.unguarded` lists the
children that are taken by their place alone, whatever their kind. As long as no comment is dropped
from such a place, types, parameters and modifiers are read as before.
-/

namespace JavaCallGraph

namespace Tree

variable {α β : Type}

/-! ### Dropping nodes -/

mutual

/-- The tree without the flagged nodes below its root. -/
def prune : Tree Bool → SyntaxTree
  | .node t _ cs => .node t () (pruneAll cs)

def pruneAll : List (Tree Bool) → List SyntaxTree
  | [] => []
  | c :: cs => if c.mark then pruneAll cs else prune c :: pruneAll cs

end

def plain (t : Tree α) : SyntaxTree := t.annotate fun _ _ => ()

def kept (cs : List (Tree Bool)) : List (Tree Bool) := cs.filter (!·.mark)

theorem pruneAll_eq (cs : List (Tree Bool)) : pruneAll cs = (kept cs).map prune := by
  induction cs with
  | nil => rfl
  | cons c cs ih => cases hc : c.mark <;> simp [pruneAll, kept, hc, ih]

@[simp] theorem token_prune (t : Tree Bool) : t.prune.token = t.token := by
  cases t
  rfl

@[simp] theorem kind_prune (t : Tree Bool) : t.prune.kind = t.kind := by simp [kind]

@[simp] theorem text_prune (t : Tree Bool) : t.prune.text = t.text := by simp [text]

@[simp] theorem children_prune (t : Tree Bool) :
    t.prune.children = (kept t.children).map prune := by
  cases t
  exact pruneAll_eq _

/-! ### Comments -/

@[mk_iff]
structure IsComment (t : Tree α) : Prop where
  kind : t.kind.isComment
  label : t.token.label = none
  children : t.children = []

instance (t : Tree α) : Decidable t.IsComment := decidable_of_iff' _ (isComment_iff t)

def genericName? (cs : List (Tree α)) : Option (Tree α) :=
  (named cs).find? fun c => c.kind != .typeArguments && !(cleanName c.text).isEmpty

def typeArgs (cs : List (Tree α)) : List (Tree α) :=
  (((named cs).filter (·.kind == .typeArguments)).getLast?.map namedChildren).getD []

def spreadType? (cs : List (Tree α)) : Option (Tree α) :=
  (named cs).find? fun c =>
    c.kind != .modifiers && c.kind != .variableDeclarator && c.kind != .identifier

/-- The nodes that a node of some kind takes by their place: children, or what stands in lists that
are its children. -/
def takenBy (kind : Kind) (cs : List (Tree α)) : List (Tree α) :=
  match kind with
  | .parenthesizedExpression | .returnStatement | .yieldStatement | .methodReference
  | .typeBound | .catchType => (named cs).head?.toList
  | .expressionStatement => named cs
  | .resource => if (first? .name cs).isSome then [] else named cs
  | .superInterfaces | .extendsInterfaces =>
    ((named cs).filter (·.kind == .typeList)).flatMap namedChildren
  | .genericType => (genericName? cs).toList ++ typeArgs cs
  | .annotatedType => (lastType? cs).toList
  | .wildcard => if cs.any (·.kind == .superKeyword) then [] else (lastType? cs).toList
  | .spreadParameter => (spreadType? cs).toList
  | _ => []

/-- The nodes that reading a node takes by their place, whatever their kind. -/
def unguarded (t : Token) (cs : List (Tree α)) : List (Tree α) :=
  (if t.label == some .superclass then (named cs).head?.toList else []) ++ takenBy t.kind cs

def DropsComments (t : Tree Bool) : Prop := ∀ c ∈ t.children, c.mark → c.IsComment

instance (t : Tree Bool) : Decidable t.DropsComments :=
  inferInstanceAs (Decidable (∀ c ∈ t.children, _ → _))

@[mk_iff]
structure Prunable (t : Tree Bool) : Prop where
  comments : t.DropsComments
  spared : ∀ c ∈ unguarded t.token t.children, c.mark = false

instance (t : Tree Bool) : Decidable t.Prunable := decidable_of_iff' _ (prunable_iff t)

theorem Prunable.spared_of_kind {t c : Tree Bool} (ht : t.Prunable) {kind : Kind}
    (hkind : t.kind = kind) (hc : c ∈ takenBy kind t.children) : c.mark = false := by
  subst hkind
  exact ht.spared c (List.mem_append_right _ hc)

theorem Everywhere.self {P : Tree α → Prop} {t : Tree α} (h : t.Everywhere P) : P t :=
  (everywhere_iff.mp h).1

theorem Everywhere.children {P : Tree α → Prop} {t c : Tree α} (h : t.Everywhere P)
    (hc : c ∈ t.children) : c.Everywhere P :=
  (everywhere_iff.mp h).2 c hc

/-- What a node has when the nodes below it have it holds everywhere. -/
theorem Everywhere.of_step {P Q : Tree α → Prop} (hstep : ∀ t : Tree α, t.Everywhere P →
    (∀ c ∈ t.children, c.Everywhere Q) → Q t) {t : Tree α} (h : t.Everywhere P) :
    t.Everywhere Q := by
  induction t using induction with
  | step t ih =>
    have hbelow : ∀ c ∈ t.children, c.Everywhere Q := fun c hc => ih c hc (h.children hc)
    exact everywhere_iff.mpr ⟨hstep t h hbelow, hbelow⟩

/-! ### Picking children -/

section Pick

variable {cs : List (Tree Bool)} {q : Tree Bool → Bool}

theorem filter_kept (hq : ∀ c ∈ cs, c.mark → q c = false) : (kept cs).filter q = cs.filter q := by
  rw [kept, List.filter_filter]
  refine List.filter_congr fun c hc => ?_
  cases hmark : c.mark with
  | false => simp
  | true => simp [hq c hc hmark]

theorem find?_kept (hq : ∀ c ∈ cs, c.mark → q c = false) : (kept cs).find? q = cs.find? q := by
  rw [← List.head?_filter, filter_kept hq, List.head?_filter]

theorem any_kept (hq : ∀ c ∈ cs, c.mark → q c = false) : (kept cs).any q = cs.any q := by
  rw [← List.isSome_find?, find?_kept hq, List.isSome_find?]

theorem kept_eq_self (hcs : ∀ c ∈ cs, c.mark = false) : kept cs = cs :=
  List.filter_eq_self.mpr fun c hc => by simp [hcs c hc]

/-- What is found stays the first to be found when it stays at all. -/
theorem find?_kept_of_spared (hspared : ∀ c ∈ (cs.find? q).toList, c.mark = false) :
    (kept cs).find? q = cs.find? q := by
  induction cs with
  | nil => rfl
  | cons c cs ih =>
    cases hq : q c with
    | true =>
      have hmark : c.mark = false := hspared c (by simp [hq])
      simp [kept, hmark, hq]
    | false =>
      rw [List.find?_cons, hq] at hspared ⊢
      rw [← ih hspared]
      cases hmark : c.mark <;> simp [kept, hmark, hq]

theorem head?_kept (hspared : ∀ c ∈ cs.head?.toList, c.mark = false) :
    (kept cs).head? = cs.head? := by
  cases cs with
  | nil => rfl
  | cons c cs => simp [kept, hspared c (by simp)]

theorem filter_comm_kept : (kept cs).filter q = kept (cs.filter q) := by
  rw [kept, List.filter_comm, kept]

theorem named_map_prune : named ((kept cs).map prune) = (kept (named cs)).map prune := by
  rw [named, List.filter_map, named, ← filter_comm_kept]
  simp [Function.comp_def]

variable (hcs : ∀ c ∈ cs, c.mark → c.IsComment)
include hcs

theorem named_comments : ∀ c ∈ named cs, c.mark → c.IsComment := fun c hc =>
  hcs c (List.mem_filter.mp hc).1

theorem first?_map_prune (label : Label) :
    first? label ((kept cs).map prune) = (first? label cs).map prune := by
  simp only [first?, List.find?_map, Function.comp_def, token_prune]
  rw [find?_kept fun c hc hmark => by simp [(hcs c hc hmark).label]]

variable (kinds : Kind → Bool) (hline : kinds .lineComment = false)
  (hblock : kinds .blockComment = false)
include hline hblock

theorem kinds_eq_false : ∀ c ∈ cs, c.mark → kinds c.kind = false := by
  intro c hc hmark
  rcases Kind.eq_of_isComment (hcs c hc hmark).kind with h | h
  · rw [h, hline]
  · rw [h, hblock]

theorem find?_kind_map_prune : ((kept cs).map prune).find? (fun c => kinds c.kind) =
    (cs.find? fun c => kinds c.kind).map prune := by
  simp only [List.find?_map, Function.comp_def, kind_prune]
  rw [find?_kept (kinds_eq_false hcs kinds hline hblock)]

theorem filter_kind_map_prune : ((kept cs).map prune).filter (fun c => kinds c.kind) =
    (cs.filter fun c => kinds c.kind).map prune := by
  simp only [List.filter_map, Function.comp_def, kind_prune]
  rw [filter_kept (kinds_eq_false hcs kinds hline hblock)]

theorem any_kind_map_prune : ((kept cs).map prune).any (fun c => kinds c.kind) =
    cs.any fun c => kinds c.kind := by
  simp only [List.any_map, Function.comp_def, kind_prune]
  exact any_kept (kinds_eq_false hcs kinds hline hblock)

end Pick

/-! ### Types -/

section TypeRef

variable {t : Tree α}

theorem typeRef_eq (t : Tree α) :
    t.typeRef = typeMark t.token (t.children.map (annotate typeMark)) := by
  rw [typeRef, mark_annotate]

theorem typeRef_arrayType (h : t.kind = .arrayType) : t.typeRef =
    (((t.child? .element).map typeRef).getD objectRef).addDims (dimsOf t.children 1) := by
  rw [kind] at h
  simp only [typeRef_eq t, typeMark, h, first?_map_annotate, dimsOf, Option.map_map, child?]
  simp only [Function.comp_def, text_annotate]
  rfl

theorem typeRef_genericType (h : t.kind = .genericType) : t.typeRef =
    ⟨((genericName? t.children).map (cleanName ·.text)).getD "",
      ((typeArgs t.children).filter (!·.kind.isAnnotating)).map typeRef, 0⟩ := by
  rw [kind] at h
  simp only [typeRef_eq t, typeMark, h, named_map_annotate, List.partition_eq_filter_filter]
  simp only [genericName?, typeArgs, List.filter_map, List.map_map, List.head?_map,
    List.head?_filter, List.find?_filter, List.getLast?_map, Option.map_map, Function.comp_def,
    kind_annotate, text_annotate, namedChildren_annotate]
  congr 1
  · simp only [Bool.decide_and, Bool.decide_eq_true]
    rfl
  · cases ((named t.children).filter (·.kind == .typeArguments)).getLast? with
    | none => rfl
    | some args =>
      simp [List.filter_map, Function.comp_def, typeRef]

theorem typeRef_annotatedType (h : t.kind = .annotatedType) : t.typeRef =
    ((lastType? t.children).map typeRef).getD objectRef := by
  rw [kind] at h
  simp only [typeRef_eq t, typeMark, h, lastType?, named_map_annotate, ← List.map_reverse,
    List.find?_map, Option.map_map, Function.comp_def, kind_annotate]
  rfl

theorem typeRef_wildcard (h : t.kind = .wildcard) : t.typeRef =
    if t.children.any (·.kind == .superKeyword) then objectRef
    else ((lastType? t.children).map typeRef).getD objectRef := by
  rw [kind] at h
  simp only [typeRef_eq t, typeMark, h, lastType?, named_map_annotate, ← List.map_reverse,
    List.find?_map, Option.map_map, Function.comp_def, kind_annotate, List.any_map]
  rfl

theorem typeRef_plain (harray : t.kind ≠ .arrayType) (hgeneric : t.kind ≠ .genericType)
    (hannotated : t.kind ≠ .annotatedType) (hwildcard : t.kind ≠ .wildcard) :
    t.typeRef = .named (cleanName t.text) := by
  rw [typeRef_eq, typeMark]
  split
  · contradiction
  · contradiction
  · contradiction
  · contradiction
  · rfl

end TypeRef

section Types

variable {cs : List (Tree Bool)}

theorem dimsOf_map_prune (hcs : ∀ c ∈ cs, c.mark → c.IsComment) (missing : Nat) :
    dimsOf ((kept cs).map prune) missing = dimsOf cs missing := by
  simp [dimsOf, first?_map_prune hcs, Function.comp_def]

theorem lastType?_map_prune (hspared : ∀ c ∈ (lastType? cs).toList, c.mark = false) :
    lastType? ((kept cs).map prune) = (lastType? cs).map prune := by
  rw [lastType?, named_map_prune, ← List.map_reverse, List.find?_map]
  simp only [Function.comp_def, kind_prune]
  rw [kept, ← List.filter_reverse, ← kept, find?_kept_of_spared hspared, lastType?]

theorem genericName?_map_prune (hspared : ∀ c ∈ (genericName? cs).toList, c.mark = false) :
    genericName? ((kept cs).map prune) = (genericName? cs).map prune := by
  rw [genericName?, named_map_prune, List.find?_map]
  simp only [Function.comp_def, kind_prune, text_prune]
  rw [find?_kept_of_spared hspared, genericName?]

theorem spreadType?_map_prune (hspared : ∀ c ∈ (spreadType? cs).toList, c.mark = false) :
    spreadType? ((kept cs).map prune) = (spreadType? cs).map prune := by
  rw [spreadType?, named_map_prune, List.find?_map]
  simp only [Function.comp_def, kind_prune]
  rw [find?_kept_of_spared hspared, spreadType?]

theorem child?_prune {t : Tree Bool} (ht : t.Prunable) (label : Label) :
    t.prune.child? label = (t.child? label).map prune := by
  rw [child?, children_prune, first?_map_prune ht.comments, child?]

theorem namedChildren_prune (t : Tree Bool) :
    t.prune.namedChildren = (kept t.namedChildren).map prune := by
  rw [namedChildren, children_prune, named_map_prune, namedChildren]

theorem namedChildren_prune_of_spared {t : Tree Bool}
    (hspared : ∀ c ∈ t.namedChildren, c.mark = false) :
    t.prune.namedChildren = t.namedChildren.map prune := by
  rw [namedChildren_prune, kept_eq_self hspared]

theorem head?_namedChildren_prune {t : Tree Bool}
    (hspared : ∀ c ∈ t.namedChildren.head?.toList, c.mark = false) :
    t.prune.namedChildren.head? = t.namedChildren.head?.map prune := by
  rw [namedChildren_prune, List.head?_map, head?_kept hspared]

theorem typeArgs_map_prune (hcs : ∀ c ∈ cs, c.mark → c.IsComment)
    (hspared : ∀ c ∈ typeArgs cs, c.mark = false) :
    typeArgs ((kept cs).map prune) = (typeArgs cs).map prune := by
  have hfilter : (named ((kept cs).map prune)).filter (·.kind == .typeArguments) =
      ((named cs).filter (·.kind == .typeArguments)).map prune := by
    rw [named_map_prune]
    exact filter_kind_map_prune (named_comments hcs) (· == .typeArguments) rfl rfl
  rw [typeArgs] at hspared ⊢
  rw [hfilter, List.getLast?_map, typeArgs]
  cases hlast : ((named cs).filter (·.kind == .typeArguments)).getLast? with
  | none => rfl
  | some args =>
    rw [hlast] at hspared
    exact namedChildren_prune_of_spared hspared

theorem mem_of_mem_typeArgs {c : Tree α} {cs : List (Tree α)} (hc : c ∈ typeArgs cs) :
    ∃ args ∈ cs, c ∈ args.children := by
  unfold typeArgs at hc
  cases hlast : ((named cs).filter (·.kind == .typeArguments)).getLast? with
  | none => simp [hlast] at hc
  | some args =>
    rw [hlast] at hc
    have hargs := (List.mem_filter.mp (List.mem_of_getLast? hlast)).1
    exact ⟨args, (List.mem_filter.mp hargs).1, (List.mem_filter.mp hc).1⟩

theorem typeRef_prune_of_children {t : Tree Bool} (ht : t.Prunable)
    (hsame : ∀ c ∈ t.children, c.Everywhere fun c => c.prune.typeRef = c.typeRef) :
    t.prune.typeRef = t.typeRef := by
  have hmap : ∀ found : Option (Tree Bool), (∀ c ∈ found, c ∈ t.children) →
      (found.map prune).map typeRef = found.map typeRef := fun found hfound => by
    rw [Option.map_map]
    exact Option.map_congr fun c hc => (hsame c (hfound c hc)).self
  have hlast : ∀ c ∈ lastType? t.children, c ∈ t.children := fun c hc =>
    (List.mem_filter.mp (List.mem_reverse.mp (List.mem_of_find?_eq_some hc))).1
  by_cases harray : t.kind = .arrayType
  · rw [typeRef_arrayType harray, typeRef_arrayType (by rwa [kind_prune]), child?_prune ht,
      hmap (t.child? .element) fun c hc => List.mem_of_find?_eq_some hc, children_prune,
      dimsOf_map_prune ht.comments]
  by_cases hgeneric : t.kind = .genericType
  · have hspared : ∀ c ∈ (genericName? t.children).toList ++ typeArgs t.children,
        c.mark = false := fun c hc => ht.spared_of_kind hgeneric hc
    have hargs : (((typeArgs t.children).map prune).filter (!·.kind.isAnnotating)).map typeRef =
        ((typeArgs t.children).filter (!·.kind.isAnnotating)).map typeRef := by
      rw [List.filter_map, List.map_map]
      simp only [Function.comp_def, kind_prune]
      refine List.map_congr_left fun c hc => ?_
      obtain ⟨args, hargs, hc⟩ := mem_of_mem_typeArgs (List.mem_filter.mp hc).1
      exact ((hsame args hargs).children hc).self
    rw [typeRef_genericType hgeneric, typeRef_genericType (by rwa [kind_prune]), children_prune,
      genericName?_map_prune fun c hc => hspared c (List.mem_append_left _ hc),
      typeArgs_map_prune ht.comments fun c hc => hspared c (List.mem_append_right _ hc), hargs,
      Option.map_map]
    simp only [Function.comp_def, text_prune]
  by_cases hannotated : t.kind = .annotatedType
  · rw [typeRef_annotatedType hannotated, typeRef_annotatedType (by rwa [kind_prune]),
      children_prune, lastType?_map_prune fun c hc => ht.spared_of_kind hannotated hc, hmap _ hlast]
  by_cases hwildcard : t.kind = .wildcard
  · rw [typeRef_wildcard hwildcard, typeRef_wildcard (by rwa [kind_prune]), children_prune,
      any_kind_map_prune ht.comments (· == .superKeyword) rfl rfl]
    split
    · rfl
    · next hsuper =>
      rw [lastType?_map_prune fun c hc => ht.spared_of_kind hwildcard ?_, hmap _ hlast]
      rwa [takenBy, if_neg hsuper]
  rw [typeRef_plain harray hgeneric hannotated hwildcard, typeRef_plain, text_prune] <;>
    rwa [kind_prune]

/-- A type is read as before. -/
theorem typeRef_prune {t : Tree Bool} (ht : t.Everywhere Prunable) :
    t.prune.typeRef = t.typeRef := by
  have hall : t.Everywhere fun t => t.prune.typeRef = t.typeRef :=
    ht.of_step fun t ht hsame => typeRef_prune_of_children ht.self hsame
  exact hall.self

/-! ### Parts of declarations -/

theorem childText_prune {t : Tree Bool} (ht : t.Prunable) (label : Label) :
    t.prune.childText label = t.childText label := by
  simp [childText, child?_prune ht, Function.comp_def]

theorem hasChild_prune {t : Tree Bool} (ht : t.Prunable) (kind : Kind)
    (hline : (Kind.lineComment == kind) = false) (hblock : (Kind.blockComment == kind) = false) :
    t.prune.hasChild kind = t.hasChild kind := by
  rw [hasChild, children_prune, any_kind_map_prune ht.comments (· == kind) hline hblock, hasChild]

theorem typeRef_child?_prune {t : Tree Bool} (ht : t.Everywhere Prunable) (label : Label) :
    (t.prune.child? label).map typeRef = (t.child? label).map typeRef := by
  rw [child?_prune ht.self, Option.map_map]
  exact Option.map_congr fun c hc => typeRef_prune (ht.children (List.mem_of_find?_eq_some hc))

theorem mem_children_of_mem_named {t c : Tree α} (hc : c ∈ t.namedChildren) : c ∈ t.children :=
  (List.mem_filter.mp hc).1

theorem typeRef_head?_prune {t : Tree Bool} (ht : t.Everywhere Prunable)
    (hspared : ∀ c ∈ t.namedChildren.head?.toList, c.mark = false) :
    t.prune.namedChildren.head?.map typeRef = t.namedChildren.head?.map typeRef := by
  rw [head?_namedChildren_prune hspared, Option.map_map]
  exact Option.map_congr fun c hc =>
    typeRef_prune (ht.children (mem_children_of_mem_named (List.mem_of_head? hc)))

theorem find?_namedChildren_prune {t : Tree Bool} (ht : t.Prunable) (kinds : Kind → Bool)
    (hline : kinds .lineComment = false) (hblock : kinds .blockComment = false) :
    t.prune.namedChildren.find? (fun c => kinds c.kind) =
      (t.namedChildren.find? fun c => kinds c.kind).map prune := by
  rw [namedChildren_prune]
  exact find?_kind_map_prune (named_comments ht.comments) kinds hline hblock

theorem filter_namedChildren_prune {t : Tree Bool} (ht : t.Prunable) (kinds : Kind → Bool)
    (hline : kinds .lineComment = false) (hblock : kinds .blockComment = false) :
    t.prune.namedChildren.filter (fun c => kinds c.kind) =
      (t.namedChildren.filter fun c => kinds c.kind).map prune := by
  rw [namedChildren_prune]
  exact filter_kind_map_prune (named_comments ht.comments) kinds hline hblock

theorem typeParam_eq (t : Tree α) : t.typeParam =
    ⟨((t.namedChildren.find? fun c => c.kind == .typeIdentifier || c.kind == .identifier).map
        text).getD "",
      (t.namedChildren.find? (·.kind == .typeBound)).bind fun bound =>
        bound.namedChildren.head?.map typeRef⟩ := by
  unfold typeParam
  congr 1
  cases t.namedChildren.find? (·.kind == .typeBound) with
  | none => rfl
  | some bound => cases h : bound.namedChildren.head? <;> simp [h]

@[simp] theorem typeParam_annotate (f : Token → List (Tree β) → β) (t : Tree α) :
    (t.annotate f).typeParam = t.typeParam := by
  simp only [typeParam_eq, namedChildren_annotate, List.find?_map, Function.comp_def, kind_annotate,
    Option.map_map, text_annotate, Option.bind_map, List.head?_map, typeRef_annotate]

theorem typeParams_map_annotate (f : Token → List (Tree β) → β) (cs : List (Tree α)) :
    typeParams (cs.map (annotate f)) = typeParams cs := by
  rw [typeParams, first?_map_annotate, typeParams]
  cases first? .typeParameters cs with
  | none => rfl
  | some list => simp [List.filter_map, Function.comp_def]

theorem modifiers_map_annotate (f : Token → List (Tree β) → β) (cs : List (Tree α)) :
    modifiers (cs.map (annotate f)) = modifiers cs := by
  rw [modifiers, named_map_annotate, List.find?_map, modifiers]
  simp only [Function.comp_def, kind_annotate]
  cases (named cs).find? (·.kind == .modifiers) with
  | none => rfl
  | some list => simp

theorem typeParam_prune {t : Tree Bool} (ht : t.Everywhere Prunable) :
    t.prune.typeParam = t.typeParam := by
  rw [typeParam_eq, typeParam_eq,
    find?_namedChildren_prune ht.self (fun k => k == .typeIdentifier || k == .identifier) rfl rfl,
    find?_namedChildren_prune ht.self (· == .typeBound) rfl rfl, Option.map_map]
  simp only [Function.comp_def, text_prune]
  congr 1
  cases hbound : t.namedChildren.find? (·.kind == .typeBound) with
  | none => rfl
  | some bound =>
    have hkind : bound.kind = .typeBound := by simpa using List.find?_some hbound
    have hprunable : bound.Everywhere Prunable :=
      ht.children (mem_children_of_mem_named (List.mem_of_find?_eq_some hbound))
    exact typeRef_head?_prune hprunable fun c hc => hprunable.self.spared_of_kind hkind hc

theorem typeParams_map_prune {cs : List (Tree Bool)} (hcs : ∀ c ∈ cs, c.mark → c.IsComment)
    (hbelow : ∀ c ∈ cs, c.Everywhere Prunable) :
    typeParams ((kept cs).map prune) = typeParams cs := by
  rw [typeParams, first?_map_prune hcs, typeParams]
  cases hlist : first? .typeParameters cs with
  | none => rfl
  | some list =>
    have hprunable : list.Everywhere Prunable := hbelow list (List.mem_of_find?_eq_some hlist)
    dsimp only [Option.map_some]
    rw [filter_namedChildren_prune hprunable.self (· == .typeParameter) rfl rfl, List.map_map]
    exact List.map_congr_left fun c hc =>
      typeParam_prune (hprunable.children (mem_children_of_mem_named (List.mem_filter.mp hc).1))

theorem param?_prune {t : Tree Bool} (ht : t.Everywhere Prunable) : t.prune.param? = t.param? := by
  unfold param?
  rw [kind_prune]
  split
  · rw [childText_prune ht.self, typeOr, typeRef_child?_prune ht, children_prune,
      dimsOf_map_prune ht.self.comments, typeOr]
  · next hkind =>
    have htype : t.prune.namedChildren.find? (fun c => c.kind != .modifiers &&
        c.kind != .variableDeclarator && c.kind != .identifier) =
          (spreadType? t.children).map prune := by
      rw [← spreadType?_map_prune fun c hc => ht.self.spared_of_kind hkind hc, ← children_prune]
      rfl
    have hdeclared : ((t.prune.namedChildren.find? (·.kind == .variableDeclarator)).bind
        (·.child? .name)).map text =
          ((t.namedChildren.find? (·.kind == .variableDeclarator)).bind
            (·.child? .name)).map text := by
      rw [find?_namedChildren_prune ht.self (· == .variableDeclarator) rfl rfl]
      cases hfound : t.namedChildren.find? (·.kind == .variableDeclarator) with
      | none => rfl
      | some c =>
        have hc := ht.children (mem_children_of_mem_named (List.mem_of_find?_eq_some hfound))
        simp [child?_prune hc.self, Function.comp_def]
    have hbare : (t.prune.namedChildren.reverse.find? (·.kind == .identifier)).map text =
        (t.namedChildren.reverse.find? (·.kind == .identifier)).map text := by
      rw [namedChildren_prune, ← List.map_reverse, kept, ← List.filter_reverse, ← kept,
        find?_kind_map_prune _ (· == .identifier) rfl rfl, Option.map_map]
      · simp only [Function.comp_def, text_prune]
      · exact fun c hc => named_comments ht.self.comments c (List.mem_reverse.mp hc)
    have hread : ((spreadType? t.children).map prune).map typeRef =
        (spreadType? t.children).map typeRef := by
      rw [Option.map_map]
      exact Option.map_congr fun c hc =>
        typeRef_prune (ht.children (mem_children_of_mem_named (List.mem_of_find?_eq_some hc)))
    dsimp only
    rw [Option.map_or, hdeclared, hbare, htype, hread, ← Option.map_or]
    rfl
  · rw [text_prune]
  · rfl

theorem params_prune {t : Tree Bool} (ht : t.Everywhere Prunable) :
    params (some t.prune) = params (some t) := by
  simp only [params, namedChildren_prune, List.filterMap_map]
  rw [kept, List.filterMap_filter]
  refine List.filterMap_congr fun c hc => ?_
  split
  · exact param?_prune (ht.children (mem_children_of_mem_named hc))
  · next hmark =>
    have hkind := (ht.self.comments c (mem_children_of_mem_named hc) (by simpa using hmark)).kind
    rcases Kind.eq_of_isComment hkind with h | h <;> rw [param?, h]

theorem dottedName?_map_prune (hcs : ∀ c ∈ cs, c.mark → c.IsComment) :
    dottedName? ((kept cs).map prune) = dottedName? cs := by
  rw [dottedName?, find?_kind_map_prune hcs (fun k => k == .identifier || k == .scopedIdentifier)
    rfl rfl, Option.map_map, dottedName?]
  simp only [Function.comp_def, text_prune]

theorem modifiers_map_prune (hcs : ∀ c ∈ cs, c.mark → c.IsComment)
    (hbelow : ∀ c ∈ cs, c.Everywhere Prunable) :
    modifiers ((kept cs).map prune) = modifiers cs := by
  rw [modifiers, named_map_prune, find?_kind_map_prune (named_comments hcs) (· == .modifiers) rfl
    rfl, modifiers]
  cases hlist : (named cs).find? (·.kind == .modifiers) with
  | none => rfl
  | some list =>
    have hprunable : list.Prunable :=
      (hbelow list (List.mem_filter.mp (List.mem_of_find?_eq_some hlist)).1).self
    simp only [Option.map_some, hasChild_prune hprunable .staticKeyword rfl rfl,
      hasChild_prune hprunable .abstractKeyword rfl rfl,
      hasChild_prune hprunable .privateKeyword rfl rfl,
      hasChild_prune hprunable .defaultKeyword rfl rfl,
      hasChild_prune hprunable .publicKeyword rfl rfl]

end Types

end Tree

end JavaCallGraph
