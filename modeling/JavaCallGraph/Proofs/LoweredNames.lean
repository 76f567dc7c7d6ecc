import JavaCallGraph.Proofs.TreeNames
import JavaCallGraph.Unit.Lowering

/-!
# Names that lowering keeps

Lowering takes names over from the tree, puts packages and enclosing types before them, and makes
up numbers for anonymous classes. If the names of a tree are readable everywhere, so are those of
the declarations that it is lowered to. `Ensures` says this of one action of the lowering, and the
meaning of every node is such an action when the meanings of the nodes below it are.
-/

namespace JavaCallGraph

structure MethodDecl.Readable (m : MethodDecl) : Prop where
  name : m.kind = .method → EndsBefore '(' m.name
  params : ∀ p ∈ m.params, EndsBefore ';' p.type.name
  ret : ∀ t ∈ m.ret, EndsBefore ';' t.name

structure TypeDecl.Readable (d : TypeDecl) : Prop where
  name : NamesType d.name
  methods : ∀ m ∈ d.methods, m.Readable

structure CompilationUnit.Readable (u : CompilationUnit) : Prop where
  types : ∀ d ∈ u.types, d.Readable
  imports : ∀ i ∈ u.imports, ';' ∉ i.path.toList

structure Lowered.Readable (s : Lowered) : Prop where
  package : ∀ name ∈ s.package, Undelimited name
  types : ∀ d ∈ s.types, d.Readable

theorem TypeDecl.Readable.addMethod {d : TypeDecl} (h : d.Readable) {m : MethodDecl}
    (hm : m.Readable) : { d with methods := d.methods ++ [m] }.Readable := by
  refine ⟨h.name, fun n hn => ?_⟩
  rcases List.mem_append.mp hn with hn | hn
  · exact h.methods n hn
  · rw [List.mem_singleton.mp hn]
    exact hm

namespace Lower

open JavaCallGraph.Tree

variable {α β : Type} {P : α → Prop} {Q : β → Prop}

/-! ### Actions that keep names readable -/

/-- Inside a type of an undelimited name the action keeps what is collected readable, and what it
returns has the property. -/
def Ensures (a : Lower α) (P : α → Prop) : Prop :=
  ∀ owner s, (∀ name ∈ owner, Undelimited name) → s.Readable →
    P (a owner s).1 ∧ (a owner s).2.Readable

def Keeps (a : Lower α) : Prop := Ensures a fun _ => True

theorem ensures_pure {x : α} (h : P x) : Ensures (pure x) P := fun _ _ _ hs => ⟨h, hs⟩

theorem keeps_pure (x : α) : Keeps (pure x) := ensures_pure trivial

theorem Ensures.keeps {a : Lower α} (h : Ensures a P) : Keeps a :=
  fun owner s howner hs => ⟨trivial, (h owner s howner hs).2⟩

theorem Ensures.bind {a : Lower α} {f : α → Lower β} (ha : Ensures a P)
    (hf : ∀ x, P x → Ensures (f x) Q) : Ensures (a >>= f) Q := by
  intro owner s howner hs
  obtain ⟨hvalue, hstate⟩ := ha owner s howner hs
  exact hf _ hvalue owner _ howner hstate

theorem Keeps.bind {a : Lower α} {f : α → Lower β} (ha : Keeps a) (hf : ∀ x, Ensures (f x) Q) :
    Ensures (a >>= f) Q :=
  Ensures.bind ha fun x _ => hf x

theorem keeps_modify {f : Lowered → Lowered} (h : ∀ s, s.Readable → (f s).Readable) :
    Keeps (modify f : Lower Unit) := fun _ s _ hs => ⟨trivial, h s hs⟩

theorem keeps_modify_rest {f : Lowered → Lowered}
    (h : ∀ s, (f s).package = s.package ∧ (f s).types = s.types) :
    Keeps (modify f : Lower Unit) := by
  refine keeps_modify fun s hs => ⟨?_, ?_⟩
  · rw [(h s).1]
    exact hs.package
  · rw [(h s).2]
    exact hs.types

theorem ensures_get : Ensures get Lowered.Readable := fun _ _ _ hs => ⟨hs, hs⟩

theorem ensures_read : Ensures read fun owner => ∀ name ∈ owner, Undelimited name :=
  fun _ _ howner hs => ⟨howner, hs⟩

theorem Ensures.inType {a : Lower α} (ha : Ensures a P) {name : String} (hname : Undelimited name) :
    Ensures (inType name a) P := by
  intro _ s _ hs
  refine ha (some name) s ?_ hs
  rintro _ ⟨⟩
  exact hname

theorem keeps_mapM {f : α → Lower β} {l : List α} (h : ∀ x ∈ l, Keeps (f x)) :
    Keeps (l.mapM f) := by
  induction l with
  | nil => exact keeps_pure []
  | cons x l ih =>
    rw [List.mapM_cons]
    refine (h x List.mem_cons_self).bind fun _ => ?_
    exact (ih fun y hy => h y (List.mem_cons_of_mem x hy)).bind fun _ => keeps_pure _

theorem keeps_mapM_option {f : α → Lower β} {o : Option α} (h : ∀ x ∈ o, Keeps (f x)) :
    Keeps (o.mapM f) := by
  cases o with
  | none => exact keeps_pure none
  | some x => exact (h x rfl).bind fun _ => keeps_pure _

theorem ensures_foldlM {f : β → α → Lower β} {l : List α}
    (h : ∀ x ∈ l, ∀ b, Q b → Ensures (f b x) Q) {b : β} (hb : Q b) : Ensures (l.foldlM f b) Q := by
  induction l generalizing b with
  | nil => exact ensures_pure hb
  | cons x l ih =>
    rw [List.foldlM_cons]
    refine (h x List.mem_cons_self b hb).bind fun b' hb' => ?_
    exact ih (fun y hy => h y (List.mem_cons_of_mem x hy)) hb'

theorem keeps_forM {f : α → Lower Unit} {l : List α} (h : ∀ x ∈ l, Keeps (f x)) :
    Keeps (l.forM f) := by
  induction l with
  | nil => exact keeps_pure ()
  | cons x l ih =>
    have hrest := ih fun y hy => h y (List.mem_cons_of_mem x hy)
    exact (h x List.mem_cons_self).bind fun _ => hrest

theorem keeps_concatM {f : α → Lower (List β)} {l : List α} (h : ∀ x ∈ l, Keeps (f x)) :
    Keeps (concatM f l) := (keeps_mapM h).bind fun _ => keeps_pure _

/-! ### Sound meanings -/

end Lower

/-- What a node of the kind means keeps names readable. Only type declarations are asked to declare
a type. -/
structure Meaning.Sound (m : Meaning) (kind : Kind) : Prop where
  expr : Lower.Keeps m.expr
  stmts : Lower.Keeps m.stmts
  members : ∀ d : TypeDecl, d.Readable → Lower.Ensures (m.members d) TypeDecl.Readable
  declare : kind.isTypeDeclaration → ∀ enclosing : Option String,
    (∀ name ∈ enclosing, Undelimited name) → Lower.Keeps (m.declare enclosing)

namespace Lower

open JavaCallGraph.Tree

variable {α : Type} {t : Marked} {ts cs : List Marked} {o : Option Marked}

def Sound (t : Marked) : Prop := t.Everywhere fun t => t.NamesReadable ∧ t.mark.Sound t.kind

theorem Sound.names (h : Sound t) : t.NamesReadable := (everywhere_iff.mp h).1.1

theorem Sound.mark (h : Sound t) : t.mark.Sound t.kind := (everywhere_iff.mp h).1.2

theorem Sound.children (h : Sound t) : ∀ c ∈ t.children, Sound c := (everywhere_iff.mp h).2

theorem sound_named (h : ∀ c ∈ cs, Sound c) : ∀ c ∈ named cs, Sound c :=
  fun c hc => h c (List.mem_filter.mp hc).1

theorem Sound.namedChildren (h : Sound t) : ∀ c ∈ t.namedChildren, Sound c := sound_named h.children

theorem sound_first? (h : ∀ c ∈ cs, Sound c) (label : Label) : ∀ c ∈ first? label cs, Sound c :=
  fun c hc => h c (List.mem_of_find?_eq_some hc)

theorem Sound.child? (h : Sound t) (label : Label) : ∀ c ∈ t.child? label, Sound c :=
  sound_first? h.children label

theorem sound_head? (h : ∀ c ∈ cs, Sound c) : ∀ c ∈ cs.head?, Sound c :=
  fun c hc => h c (List.mem_of_mem_head? hc)

/-! ### Expressions -/

theorem keeps_exprOr (h : ∀ c ∈ o, Sound c) : Keeps (exprOr o) := by
  cases o with
  | none => exact keeps_pure nothing
  | some t => exact (h t rfl).mark.expr

theorem keeps_exprs (h : ∀ c ∈ ts, Sound c) : Keeps (exprs ts) :=
  keeps_mapM fun c hc => (h c hc).mark.expr

theorem keeps_innerExprs (h : ∀ c ∈ cs, Sound c) : Keeps (innerExprs cs) :=
  keeps_exprs fun c hc => sound_named h c (List.mem_filter.mp hc).1

theorem keeps_arguments (h : ∀ c ∈ o, Sound c) : Keeps (arguments o) := by
  cases o with
  | none => exact keeps_pure []
  | some list =>
    exact keeps_exprs fun c hc => (h list rfl).namedChildren c (List.mem_filter.mp hc).1

theorem keeps_block (h : Sound t) : Keeps (block t) := by
  unfold block
  split
  · exact h.mark.expr.bind fun _ => keeps_pure _
  · exact keeps_concatM fun c hc => (h.namedChildren c hc).mark.stmts

theorem keeps_collectYields {a : Lower α} (h : Keeps a) : Keeps (collectYields a) := by
  refine Keeps.bind (keeps_modify_rest fun _ => ⟨rfl, rfl⟩) fun _ => h.bind fun _ => ?_
  refine ensures_get.keeps.bind fun _ => ?_
  exact Keeps.bind (keeps_modify_rest fun _ => ⟨rfl, rfl⟩) fun _ => keeps_pure _

theorem keeps_nextAnonymous (owner : String) : Keeps (nextAnonymous owner) := by
  refine ensures_get.keeps.bind fun _ => ?_
  exact Keeps.bind (keeps_modify_rest fun _ => ⟨rfl, rfl⟩) fun _ => keeps_pure _

theorem keeps_addType {d : TypeDecl} (h : d.Readable) : Keeps (addType d) := by
  refine keeps_modify fun s hs => ⟨hs.package, fun e he => ?_⟩
  rcases List.mem_append.mp he with he | he
  · exact hs.types e he
  · rw [List.mem_singleton.mp he]
    exact h

theorem namesType_toString (n : Nat) : NamesType (toString n) := by
  have hdigits : ∀ c ∈ Nat.toDigits 10 n, c.isDigit :=
    fun c hc => Nat.isDigit_of_mem_toDigits (by decide) (by decide) hc
  have habsent (c : Char) (hc : c.isDigit = false) : c ∉ Nat.toDigits 10 n := by
    intro hmem
    rw [hdigits c hmem] at hc
    cases hc
  have hsimple : simpleName (toString n) = toString n := by
    rw [Nat.toString_eq_ofList_toDigits, simpleName, String.toList_ofList,
      List.takeWhile_eq_self_iff.mpr, List.reverse_reverse]
    intro c hc
    have hdot : c ≠ '.' := fun h => habsent '.' rfl (h ▸ List.mem_reverse.mp hc)
    have hdollar : c ≠ '$' := fun h => habsent '$' rfl (h ▸ List.mem_reverse.mp hc)
    simp [hdot, hdollar]
  refine ⟨?_, ?_⟩
  · rw [Nat.toString_eq_ofList_toDigits, Undelimited, String.toList_ofList]
    exact ⟨habsent ':' rfl, habsent ';' rfl⟩
  · rw [hsimple, Nat.toString_eq_ofList_toDigits, endsBefore_ofList]
    exact ⟨Nat.toDigits_ne_nil, habsent '(' rfl⟩

theorem keeps_anonymousClass {body : Marked} (h : Sound body) (superclass : TypeRef) :
    Keeps (anonymousClass superclass body) := by
  refine ensures_read.bind fun owner howner => ?_
  refine (keeps_nextAnonymous _).bind fun number => ?_
  have hfront : Undelimited (owner.getD "") := by
    cases owner with
    | none => decide
    | some name => exact howner name rfl
  have hname := (namesType_toString number).inside (.inr rfl) hfront
  refine Ensures.bind ((h.mark.members _ ⟨hname, ?_⟩).inType hname.undelimited) ?_
  · intro m hm
    cases hm
  · exact fun decl hdecl => (keeps_addType hdecl).bind fun _ => keeps_pure _

theorem keeps_receiver (h : ∀ c ∈ cs, Sound c) : Keeps (receiver cs) := by
  unfold receiver
  split
  · exact keeps_pure _
  · next object hobject =>
    split
    · exact keeps_pure _
    · split
      · exact keeps_pure _
      · exact (sound_first? h _ object hobject).mark.expr.bind fun _ => keeps_pure _

theorem keeps_fieldAccess (h : ∀ c ∈ cs, Sound c) : Keeps (fieldAccess cs) := by
  unfold fieldAccess
  split
  · next object field hobject hfield =>
    split
    · exact keeps_pure _
    · split
      · exact (keeps_pure _).bind fun _ => keeps_pure _
      · exact (sound_first? h _ object hobject).mark.expr.bind fun _ => keeps_pure _
  · exact (keeps_innerExprs h).bind fun _ => keeps_pure _

theorem keeps_arrayPart (h : Sound t) : Keeps (arrayPart t) := by
  have hinner := keeps_innerExprs h.children
  unfold arrayPart
  split
  · exact hinner.bind fun _ => keeps_pure _
  · exact keeps_pure _
  · exact hinner.bind fun _ => keeps_pure _
  · exact keeps_pure _

theorem keeps_methodRefReceiver (h : ∀ c ∈ cs, Sound c) : Keeps (methodRefReceiver cs) := by
  unfold methodRefReceiver
  split
  · exact keeps_pure _
  · next r hr =>
    split
    · exact (sound_head? (sound_named h) r hr).mark.expr
    · exact keeps_pure _

theorem keeps_armPart (h : Sound t) (isRule : Bool) : Keeps (armPart isRule t) := by
  unfold armPart
  split
  · exact keeps_pure _
  · split
    · exact (keeps_exprs h.namedChildren).bind fun _ => keeps_pure _
    · exact h.mark.stmts.bind fun _ => keeps_pure _

theorem keeps_switchArm (h : Sound t) : Keeps (switchArm t) :=
  (keeps_mapM fun c hc => keeps_armPart (h.namedChildren c hc) _).bind fun _ => keeps_pure _

theorem keeps_switchExpr (h : ∀ c ∈ cs, Sound c) : Keeps (switchExpr cs) := by
  have harms : ∀ c ∈ ((first? .body cs).map namedChildren).getD [], Sound c := by
    cases hbody : first? .body cs with
    | none => simp
    | some body => exact (sound_first? h _ body hbody).namedChildren
  refine (keeps_exprOr (sound_first? h _)).bind fun _ => ?_
  refine Keeps.bind (keeps_collectYields (keeps_mapM fun c hc => keeps_switchArm (harms c hc))) ?_
  exact fun (_, _) => keeps_pure _

theorem keeps_exprMeaning (token : Token) (h : ∀ c ∈ cs, Sound c) :
    Keeps (exprMeaning token cs) := by
  have hfirst (label : Label) := keeps_exprOr (sound_first? h label)
  have hargs := keeps_arguments (sound_first? h .arguments)
  have hother := (keeps_innerExprs h).bind fun parts => keeps_pure (Expr.other parts)
  unfold exprMeaning
  split
  · exact keeps_exprOr (sound_head? (sound_named h))
  all_goals try exact keeps_pure _
  · exact (keeps_receiver h).bind fun _ => hargs.bind fun _ => keeps_pure _
  · refine hargs.bind fun _ => (keeps_mapM_option fun body hbody => ?_).bind fun _ => keeps_pure _
    exact keeps_anonymousClass (sound_named h body (List.mem_of_find?_eq_some hbody)) _
  · exact keeps_fieldAccess h
  · exact (hfirst _).bind fun _ => (hfirst _).bind fun _ => keeps_pure _
  · exact (hfirst _).bind fun _ => (hfirst _).bind fun _ => keeps_pure _
  · exact (hfirst _).bind fun _ => keeps_pure _
  · exact (hfirst _).bind fun _ => keeps_pure _
  · exact (hfirst _).bind fun _ => (hfirst _).bind fun _ => (hfirst _).bind fun _ => keeps_pure _
  · exact (hfirst _).bind fun _ => (hfirst _).bind fun _ => keeps_pure _
  · refine (keeps_mapM fun c hc => ?_).bind fun _ => keeps_pure _
    exact keeps_arrayPart (sound_named h c hc)
  · split
    · next body hbody =>
      have hblock := keeps_block (sound_first? h _ body hbody)
      refine (keeps_collectYields hblock).bind fun _ => ?_
      exact (keeps_pure _).bind fun _ => keeps_pure _
    · exact (keeps_pure _).bind fun _ => keeps_pure _
  · exact (keeps_methodRefReceiver h).bind fun _ => keeps_pure _
  · exact keeps_switchExpr h
  · exact hother

/-! ### Statements -/

theorem keeps_localVar (h : Sound t) (type : TypeRef) : Keeps (localVar type t) :=
  (keeps_mapM_option fun c hc => (h.child? _ c hc).mark.expr).bind fun _ => keeps_pure _

theorem keeps_resource (h : ∀ c ∈ cs, Sound c) : Keeps (resource cs) := by
  unfold resource
  split
  · exact (keeps_mapM_option fun c hc => (sound_first? h _ c hc).mark.expr).bind fun _ =>
      keeps_pure _
  · exact (keeps_exprs (sound_named h)).bind fun _ => keeps_pure _

theorem keeps_yieldValue (value : Expr) : Keeps (yieldValue value) := by
  refine ensures_get.keeps.bind fun s => ?_
  split
  · exact keeps_pure _
  · exact Keeps.bind (keeps_modify_rest fun _ => ⟨rfl, rfl⟩) fun _ => keeps_pure _

theorem keeps_forEach (h : ∀ c ∈ cs, Sound c) : Keeps (forEach cs) := by
  refine (keeps_exprOr (sound_first? h _)).bind fun _ => ?_
  cases hbody : first? .body cs with
  | none => exact (keeps_pure _).bind fun _ => keeps_pure _
  | some body => exact (sound_first? h _ body hbody).mark.stmts.bind fun _ => keeps_pure _

theorem keeps_stmtsMeaning (token : Token) (h : ∀ c ∈ cs, Sound c)
    {declare : Option String → Lower Unit}
    (hdeclare : token.kind.isTypeDeclaration → ∀ enclosing : Option String,
      (∀ name ∈ enclosing, Undelimited name) → Keeps (declare enclosing)) :
    Keeps (stmtsMeaning token cs declare) := by
  unfold stmtsMeaning
  split
  · refine keeps_mapM fun c hc => keeps_localVar (h c (List.mem_filter.mp hc).1) _
  · exact (keeps_exprs (sound_named h)).bind fun _ => keeps_pure _
  · refine (keeps_mapM_option fun c hc => ?_).bind fun _ => keeps_pure _
    exact (sound_head? (sound_named h) c hc).mark.expr
  · split
    · next value hvalue =>
      exact (sound_head? (sound_named h) value hvalue).mark.expr.bind fun _ => keeps_yieldValue _
    · exact keeps_pure _
  · exact (keeps_arguments (sound_first? h _)).bind fun _ => keeps_pure _
  · exact keeps_forEach h
  · exact keeps_pure _
  · exact keeps_resource h
  · exact keeps_pure _
  · exact keeps_pure _
  · exact keeps_pure _
  · exact keeps_pure _
  · exact keeps_concatM fun c hc => (sound_named h c (List.mem_filter.mp hc).1).mark.stmts
  · split
    · next htype =>
      refine ensures_read.bind fun owner howner => ?_
      exact (hdeclare htype owner howner).bind fun _ => keeps_pure _
    · split
      · exact (keeps_exprMeaning token h).bind fun _ => keeps_pure _
      · exact keeps_concatM fun c hc => (sound_named h c hc).mark.stmts

/-! ### Declarations -/

theorem keeps_fieldDecl (h : Sound t) (type : TypeRef) (isStatic : Bool) :
    Keeps (fieldDecl type isStatic t) :=
  (keeps_mapM_option fun c hc => (h.child? _ c hc).mark.expr).bind fun _ => keeps_pure _

theorem ensures_methodDecl (h : Sound t) (hkind : t.kind = .methodDeclaration)
    (inInterface : Bool) : Ensures (methodDecl inInterface t) MethodDecl.Readable := by
  refine (keeps_mapM_option fun c hc => keeps_block (h.child? _ c hc)).bind fun _ => ?_
  refine ensures_pure ⟨fun _ => h.names.method hkind, h.names.params (.inl hkind), ?_⟩
  intro type htype
  obtain ⟨r, hr, rfl⟩ := Option.map_eq_some_iff.mp htype
  exact h.names.result hkind r hr

theorem ensures_constructorDecl (h : Sound t) (hkind : t.kind = .constructorDeclaration)
    (simpleName : String) : Ensures (constructorDecl simpleName t) MethodDecl.Readable := by
  refine (keeps_mapM_option fun c hc => keeps_block (h.child? _ c hc)).bind fun _ => ?_
  refine ensures_pure ⟨?_, h.names.params (.inr (.inl hkind)), ?_⟩
  · rintro ⟨⟩
  · rintro _ ⟨⟩

theorem keeps_enumConstant (h : Sound t) (decl : TypeDecl) : Keeps (enumConstant decl t) :=
  (keeps_arguments (h.child? _)).bind fun _ => keeps_pure _

theorem keeps_staticBlock (h : Sound t) : Keeps (staticBlock t) := by
  unfold staticBlock
  split
  · next b hb => exact keeps_block (h.namedChildren b (List.mem_of_find?_eq_some hb))
  · exact keeps_pure _

theorem ensures_member (h : Sound t) {decl : TypeDecl} (hdecl : decl.Readable) :
    Ensures (member decl t) TypeDecl.Readable := by
  unfold member
  split
  · refine Keeps.bind (keeps_mapM fun c hc => ?_) fun _ => ensures_pure ⟨hdecl.name, hdecl.methods⟩
    exact keeps_fieldDecl (h.children c (List.mem_filter.mp hc).1) _ _
  · refine Keeps.bind (keeps_mapM fun c hc => ?_) fun _ => ensures_pure ⟨hdecl.name, hdecl.methods⟩
    exact keeps_fieldDecl (h.children c (List.mem_filter.mp hc).1) _ _
  · next hkind =>
    exact (ensures_methodDecl h hkind _).bind fun _ hm => ensures_pure (hdecl.addMethod hm)
  · next hkind =>
    exact (ensures_constructorDecl h hkind _).bind fun _ hm => ensures_pure (hdecl.addMethod hm)
  · exact (keeps_block h).bind fun _ => ensures_pure ⟨hdecl.name, hdecl.methods⟩
  · exact (keeps_staticBlock h).bind fun _ => ensures_pure ⟨hdecl.name, hdecl.methods⟩
  · exact (keeps_enumConstant h decl).bind fun _ => ensures_pure ⟨hdecl.name, hdecl.methods⟩
  · exact h.mark.members decl hdecl
  · dsimp only
    split
    · next htype =>
      refine Keeps.bind (h.mark.declare htype _ ?_) fun _ => ensures_pure hdecl
      rintro _ ⟨⟩
      exact hdecl.name.undelimited
    · exact ensures_pure hdecl

theorem ensures_membersMeaning (h : ∀ c ∈ cs, Sound c) {decl : TypeDecl} (hdecl : decl.Readable) :
    Ensures (membersMeaning cs decl) TypeDecl.Readable :=
  ensures_foldlM (fun c hc _ hd => ensures_member (sound_named h c hc) hd) hdecl

/-! ### Records -/

theorem readable_addComponent {decl : TypeDecl} (hdecl : decl.Readable) {component : Param}
    (hname : EndsBefore '(' component.name) (htype : EndsBefore ';' component.type.name) :
    (addComponent decl component).Readable := by
  unfold addComponent
  dsimp only
  split
  · exact ⟨hdecl.name, hdecl.methods⟩
  · have haccessor : (accessor decl component).Readable := by
      refine ⟨fun _ => hname, ?_, ?_⟩
      · rintro _ ⟨⟩
      · rintro _ ⟨⟩
        exact htype
    exact ⟨hdecl.name, (hdecl.addMethod haccessor).methods⟩

theorem keeps_compactBody (h : Sound t) (found : List Stmt) : Keeps (compactBody found t) := by
  unfold compactBody
  split
  · next body _ hbody => exact keeps_block (h.child? _ body hbody)
  · exact keeps_pure _

theorem ensures_recordMembers {components : List Param}
    (hnames : ∀ p ∈ components, EndsBefore '(' p.name)
    (htypes : ∀ p ∈ components, EndsBefore ';' p.type.name) (h : ∀ c ∈ o, Sound c)
    {decl : TypeDecl} (hdecl : decl.Readable) :
    Ensures (recordMembers components o decl) TypeDecl.Readable := by
  have hfinish (compact : List Stmt) (decl : TypeDecl) (hdecl : decl.Readable) :
      Ensures (if (components.foldl addComponent decl).methods.any (isCanonical components) then
        (pure (components.foldl addComponent decl) : Lower TypeDecl)
      else pure { components.foldl addComponent decl with
        methods := (components.foldl addComponent decl).methods ++
          [canonical (components.foldl addComponent decl) components compact] })
      TypeDecl.Readable := by
    have hadded : (components.foldl addComponent decl).Readable :=
      List.foldlRecOn _ _ hdecl fun d hd p hp =>
        readable_addComponent hd (hnames p hp) (htypes p hp)
    split
    · exact ensures_pure hadded
    · refine ensures_pure (hadded.addMethod ⟨?_, htypes, ?_⟩)
      · rintro ⟨⟩
      · rintro _ ⟨⟩
  have hmembers : ∀ c ∈ (o.map namedChildren).getD [], Sound c := by
    cases o with
    | none => simp
    | some body => exact (h body rfl).namedChildren
  refine Keeps.bind (ensures_foldlM (fun c hc found _ => ?_) trivial) fun compact => ?_
  · exact keeps_compactBody (hmembers c hc) found
  · split
    · exact ((h _ rfl).mark.members decl hdecl).bind (hfinish compact)
    · exact (ensures_pure hdecl).bind (hfinish compact)

/-! ### Type declarations -/

theorem namesType_qualifiedName {package enclosing : Option String} {simple : String}
    (hsimple : NamesType simple) (hpackage : ∀ name ∈ package, Undelimited name)
    (henclosing : ∀ name ∈ enclosing, Undelimited name) :
    NamesType (qualifiedName package enclosing simple) := by
  unfold qualifiedName
  split
  · next outer => exact hsimple.inside (.inr rfl) (henclosing outer rfl)
  · next package => exact hsimple.inside (.inl rfl) (hpackage package rfl)
  · exact hsimple

theorem keeps_declareMeaning {token : Token} {m : Meaning} (h : ∀ c ∈ cs, Sound c)
    (hnames : (Tree.node token m cs).NamesReadable) (htype : token.kind.isTypeDeclaration)
    {enclosing : Option String} (henclosing : ∀ name ∈ enclosing, Undelimited name) :
    Keeps (declareMeaning token cs enclosing) := by
  refine ensures_get.bind fun s hs => ?_
  have hname : NamesType (qualifiedName s.package enclosing
      (((first? .name cs).map text).getD "")) :=
    namesType_qualifiedName (hnames.type htype) hs.package henclosing
  refine Ensures.bind (Ensures.inType ?_ hname.undelimited) fun decl hdecl => keeps_addType hdecl
  have hbody := sound_first? h .body
  split
  · next hkind =>
    have hkind : token.kind = .recordDeclaration := by simpa using hkind
    refine ensures_recordMembers (hnames.components hkind) (hnames.params (.inr (.inr hkind)))
      hbody ⟨hname, ?_⟩
    rintro _ ⟨⟩
  · split
    · next body hfound =>
      refine (hbody body hfound).mark.members _ ⟨hname, ?_⟩
      rintro _ ⟨⟩
    · refine ensures_pure ⟨hname, ?_⟩
      rintro _ ⟨⟩

/-- The meaning of a node is sound when the nodes below it are. -/
theorem sound_meaning {token : Token} {m : Meaning} (h : ∀ c ∈ cs, Sound c)
    (hnames : (Tree.node token m cs).NamesReadable) : (meaning token cs).Sound token.kind where
  expr := keeps_exprMeaning token h
  stmts := keeps_stmtsMeaning token h fun htype _ => keeps_declareMeaning h hnames htype
  members _ hd := ensures_membersMeaning h hd
  declare htype _ := keeps_declareMeaning h hnames htype

theorem sound_annotate {tree : SyntaxTree} (h : tree.Everywhere NamesReadable) :
    Sound (tree.annotate meaning) := by
  refine h.annotate fun t ht hbelow => ?_
  have hnames := ht.annotate meaning
  cases t with
  | node token m cs => exact ⟨hnames, sound_meaning hbelow hnames⟩

theorem keeps_topLevel (h : Sound t) : Keeps (topLevel t) := by
  unfold topLevel
  split
  · next hkind =>
    refine keeps_modify fun s hs => ⟨?_, hs.types⟩
    exact h.names.package (by simpa using hkind)
  · split
    · next htype => exact h.mark.declare htype none (by simp)
    · exact keeps_pure ()

end Lower

/-- A tree with readable names is lowered to declarations with readable names. -/
theorem CompilationUnit.readable_ofTree {tree : SyntaxTree}
    (h : tree.Everywhere Tree.NamesReadable) (path : String) (hasErrors : Bool) :
    (ofTree path hasErrors tree).Readable := by
  have hitems := (Lower.sound_annotate h).namedChildren
  constructor
  · have hstart : ({} : Lowered).Readable := ⟨by simp, by simp⟩
    have hlowered := Lower.keeps_forM fun t ht => Lower.keeps_topLevel (hitems t ht)
    exact (hlowered none {} (by simp) hstart).2.types
  · intro i hi
    obtain ⟨t, ht, rfl⟩ := List.mem_map.mp hi
    obtain ⟨hmem, hkind⟩ := List.mem_filter.mp ht
    have hpath := (hitems t hmem).names.path (by simpa using hkind)
    unfold Lower.importOf
    cases hname : Tree.dottedName? t.children with
    | none => simp
    | some name => exact hpath name hname

end JavaCallGraph
