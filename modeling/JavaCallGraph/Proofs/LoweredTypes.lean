import JavaCallGraph.Proofs.DeclaredTypes
import JavaCallGraph.Proofs.LoweredCalls

/-!
# Types of lowered trees

The meaning of every node declares types by the rules when the meanings of the nodes below it do.
The members of a body go to the type it belongs to, which keeps its name on the way.
-/

namespace JavaCallGraph

/-! ### A type while its body is read -/

structure TypeDecl.Extends (d e : TypeDecl) : Prop where
  name : e.name = d.name
  simpleName : e.simpleName = d.simpleName
  kind : e.kind = d.kind
  enclosing : e.enclosing = d.enclosing
  methods : ∀ m ∈ e.methods, m ∈ d.methods ∨ m.Spread

namespace TypeDecl.Extends

variable {d e e' : TypeDecl}

theorem rest (d : TypeDecl) (fields : List FieldDecl) (initializers : List Initializer) :
    d.Extends { d with fields := fields, initializers := initializers } :=
  ⟨rfl, rfl, rfl, rfl, fun _ => .inl⟩

theorem refl (d : TypeDecl) : d.Extends d := rest d d.fields d.initializers

theorem trans (h : d.Extends e) (h' : e.Extends e') : d.Extends e' where
  name := h'.name.trans h.name
  simpleName := h'.simpleName.trans h.simpleName
  kind := h'.kind.trans h.kind
  enclosing := h'.enclosing.trans h.enclosing
  methods m hm := (h'.methods m hm).elim (h.methods m) .inr

theorem addMethod (d : TypeDecl) {m : MethodDecl} (hm : m.Spread) :
    d.Extends { d with methods := d.methods ++ [m] } := by
  refine ⟨rfl, rfl, rfl, rfl, fun n hn => ?_⟩
  rcases List.mem_append.mp hn with hn | hn
  · exact .inl hn
  · exact .inr (List.mem_singleton.mp hn ▸ hm)

theorem lawful {rules : NameRules} (h : d.Extends e) (hd : d.Lawful rules) : e.Lawful rules where
  named := by
    rw [h.name, h.enclosing, h.simpleName]
    exact hd.named
  written hkind := h.simpleName ▸ hd.written (h.kind ▸ hkind)
  inside hkind := h.enclosing ▸ hd.inside (h.kind ▸ hkind)
  spread m hm := (h.methods m hm).elim (hd.spread m) id

theorem numbersOf_eq (h : d.Extends e) (owner : String) :
    numbersOf owner [e] = numbersOf owner [d] := by
  simp only [numbersOf, List.filter_singleton, h.kind, h.enclosing]
  cases d.kind == .anonymous && d.enclosing == some owner <;> simp [h.simpleName]

theorem anonymousNames_eq (h : d.Extends e) : anonymousNames [e] = anonymousNames [d] := by
  simp only [anonymousNames, List.filter_singleton, h.kind]
  cases d.kind == .anonymous <;> simp [h.name]

end TypeDecl.Extends

/-- What a node of the kind means declares types by the rules. Only type declarations are asked to
declare a type of their own. -/
structure Meaning.Declaring (rules : NameRules) (x : String) (m : Meaning) (kind : Kind) :
    Prop where
  expr : ∀ owner, Lower.Declares rules x (some owner) m.expr Expr.bodyTypes 0
  stmts : ∀ owner, Lower.Declares rules x (some owner) m.stmts (·.flatMap Stmt.bodyTypes) 0
  members : ∀ d : TypeDecl, Lower.Declares rules x (some d.name) (m.members d) TypeDecl.bodyTypes
    (d.bodyTypes.count x)
  extends_members : ∀ d : TypeDecl, Lower.Returns (m.members d) d.Extends
  declare : kind.isTypeDeclaration → ∀ outer,
    Lower.Declares rules x outer (m.declare outer) (fun _ => []) 0

namespace Lower

open JavaCallGraph.Tree

variable {α : Type} {rules : NameRules} {x owner : String} {outer : Option String} {t : Marked}
  {ts cs : List Marked} {o : Option Marked}

def Declaring (rules : NameRules) (x : String) (t : Marked) : Prop :=
  t.Everywhere fun t => t.mark.Declaring rules x t.kind

theorem Declaring.mark (h : Declaring rules x t) : t.mark.Declaring rules x t.kind :=
  (everywhere_iff.mp h).1

theorem Declaring.children (h : Declaring rules x t) : ∀ c ∈ t.children, Declaring rules x c :=
  (everywhere_iff.mp h).2

theorem declaring_named (h : ∀ c ∈ cs, Declaring rules x c) : ∀ c ∈ named cs, Declaring rules x c :=
  fun c hc => h c (List.mem_filter.mp hc).1

theorem Declaring.namedChildren (h : Declaring rules x t) :
    ∀ c ∈ t.namedChildren, Declaring rules x c := declaring_named h.children

theorem declaring_first? (h : ∀ c ∈ cs, Declaring rules x c) (label : Label) :
    ∀ c ∈ first? label cs, Declaring rules x c := fun c hc => h c (mem_first? hc)

theorem Declaring.child? (h : Declaring rules x t) (label : Label) :
    ∀ c ∈ t.child? label, Declaring rules x c := declaring_first? h.children label

theorem declaring_head? (h : ∀ c ∈ cs, Declaring rules x c) :
    ∀ c ∈ (named cs).head?, Declaring rules x c :=
  fun c hc => declaring_named h c (List.mem_of_mem_head? hc)

/-! ### Expressions -/

theorem declares_exprOr (h : ∀ c ∈ o, Declaring rules x c) :
    Declares rules x (some owner) (exprOr o) Expr.bodyTypes 0 := by
  cases o with
  | none => exact declares_pure (Nat.le_refl 0)
  | some t => exact (h t rfl).mark.expr owner

theorem declares_exprs (h : ∀ c ∈ ts, Declaring rules x c) :
    Declares rules x (some owner) (exprs ts) (·.flatMap Expr.bodyTypes) 0 :=
  declares_mapM fun c hc => (h c hc).mark.expr owner

theorem declares_innerExprs (h : ∀ c ∈ cs, Declaring rules x c) :
    Declares rules x (some owner) (innerExprs cs) (·.flatMap Expr.bodyTypes) 0 :=
  declares_exprs fun c hc => declaring_named h c (List.mem_filter.mp hc).1

theorem declares_arguments (h : ∀ c ∈ o, Declaring rules x c) :
    Declares rules x (some owner) (arguments o) (·.flatMap Expr.bodyTypes) 0 := by
  cases o with
  | none => exact declares_pure (Nat.le_refl 0)
  | some list =>
    exact declares_exprs fun c hc => (h list rfl).namedChildren c (List.mem_filter.mp hc).1

theorem declares_block (h : Declaring rules x t) :
    Declares rules x (some owner) (block t) (·.flatMap Stmt.bodyTypes) 0 := by
  unfold block
  split
  · exact (h.mark.expr owner).last fun e => declares_pure (by simp)
  · exact declares_concatM fun c hc => (h.namedChildren c hc).mark.stmts owner

theorem declares_receiver (h : ∀ c ∈ cs, Declaring rules x c) :
    Declares rules x (some owner) (receiver cs) Receiver.bodyTypes 0 := by
  unfold receiver
  split
  · exact declares_pure (Nat.le_refl 0)
  · next object hobject =>
    split
    · exact declares_pure (Nat.le_refl 0)
    · split
      · exact declares_pure (Nat.le_refl 0)
      · exact ((declaring_first? h _ object hobject).mark.expr owner).last fun _ =>
          declares_pure (Nat.le_refl _)

theorem declares_fieldAccess (h : ∀ c ∈ cs, Declaring rules x c) :
    Declares rules x (some owner) (fieldAccess cs) Expr.bodyTypes 0 := by
  unfold fieldAccess
  split
  · next object field hobject hfield =>
    split
    · exact declares_pure (Nat.le_refl 0)
    · split
      · exact declares_pure (Nat.le_refl 0)
      · exact ((declaring_first? h _ object hobject).mark.expr owner).last fun _ =>
          declares_pure (Nat.le_refl _)
  · exact (declares_innerExprs h).last fun _ => declares_pure (by simp)

theorem declares_arrayPart (h : Declaring rules x t) :
    Declares rules x (some owner) (arrayPart t) (·.2.flatMap Expr.bodyTypes) 0 := by
  have hinner : Declares rules x (some owner) (innerExprs t.children) _ 0 :=
    declares_innerExprs h.children
  unfold arrayPart
  split
  · exact hinner.last fun _ => declares_pure (by simp)
  · exact declares_pure (Nat.le_refl 0)
  · exact hinner.last fun _ => declares_pure (Nat.le_refl _)
  · exact declares_pure (Nat.le_refl 0)

theorem declares_methodRefReceiver (h : ∀ c ∈ cs, Declaring rules x c) :
    Declares rules x (some owner) (methodRefReceiver cs) Expr.bodyTypes 0 := by
  unfold methodRefReceiver
  split
  · exact declares_pure (Nat.le_refl 0)
  · next r hr =>
    split
    · exact (declaring_head? h r hr).mark.expr owner
    · exact declares_pure (Nat.le_refl 0)

/-! ### Switches -/

def partBodyTypes (p : List Stmt × List Expr) : List String :=
  p.1.flatMap Stmt.bodyTypes ++ p.2.flatMap Expr.bodyTypes

theorem count_partBodyTypes (parts : List (List Stmt × List Expr)) :
    (parts.flatMap partBodyTypes).count x =
      (partBodyTypes (parts.flatMap (·.1), parts.flatMap (·.2))).count x := by
  unfold partBodyTypes
  rw [List.flatMap_assoc, List.flatMap_assoc]
  exact ((List.flatMap_append_perm ..).count_eq x).symm

theorem declares_armPart (h : Declaring rules x t) (isRule : Bool) :
    Declares rules x (some owner) (armPart isRule t) partBodyTypes 0 := by
  unfold armPart
  split
  · exact declares_pure (Nat.le_refl 0)
  · split
    · exact (declares_exprs h.namedChildren).last fun _ => declares_pure (by simp [partBodyTypes])
    · exact (h.mark.stmts owner).last fun _ => declares_pure (by simp [partBodyTypes])

theorem declares_switchArm (h : Declaring rules x t) :
    Declares rules x (some owner) (switchArm t) partBodyTypes 0 := by
  refine (declares_mapM fun c hc => declares_armPart (h.namedChildren c hc) _).last fun parts => ?_
  exact declares_pure (count_partBodyTypes parts).ge

theorem declares_switchExpr (h : ∀ c ∈ cs, Declaring rules x c) :
    Declares rules x (some owner) (switchExpr cs) Expr.bodyTypes 0 := by
  have harms : ∀ c ∈ ((first? .body cs).map Tree.namedChildren).getD [], Declaring rules x c := by
    cases hbody : first? .body cs with
    | none => simp
    | some body => exact (declaring_first? h _ body hbody).namedChildren
  have hcollected : Declares rules x (some owner) (collectYields (List.mapM switchArm _)) _ 0 :=
    declares_collectYields (declares_mapM fun c hc => declares_switchArm (harms c hc))
  refine (declares_exprOr (declaring_first? h _)).last fun selector => ?_
  refine hcollected.next fun collected => declares_pure ?_
  simp only [Expr.bodyTypes, Expr.bodyTypesIn_eq, Stmt.bodyTypesIn_eq, List.count_append,
    count_partBodyTypes, partBodyTypes, List.flatMap_append]
  omega

/-! ### New types -/

/-- The body of a type is read, then the type ends. Its number, if it has one, is given first. -/
theorem exists_declared {a : Lower TypeDecl} {d : TypeDecl}
    (ha : Declares rules x (some d.name) a TypeDecl.bodyTypes 0) (hreturns : Returns a d.Extends)
    (hd : d.Lawful rules) {r s s' : Lowered} (hpackage : ∀ p ∈ r.package, rules.package p)
    (hsame : s.package = r.package ∧ s.types = r.types ∧ s.yields = r.yields)
    (hnumber : ∀ owner y,
      (s.given owner).count y = (r.given owner).count y + (numbersOf owner [d]).count y)
    (hrun : s' = { (a (some d.name) s).2 with
      types := (a (some d.name) s).2.types ++ [(a (some d.name) s).1] }) :
    ∃ added, Declared rules d.enclosing r s' added ∧
      (anonymousNames [d]).count x + s'.bodyTypes.count x ≤
        r.bodyTypes.count x + (anonymousNames added).count x := by
  obtain ⟨hsamePackage, hsameTypes, hsameYields⟩ := hsame
  obtain ⟨as, hdeclared, hcount⟩ := ha s (hsamePackage ▸ hpackage)
  have hextends := hreturns (some d.name) s
  subst hrun
  generalize a (some d.name) s = result at *
  obtain ⟨e, s'⟩ := result
  dsimp only at hdeclared hcount hextends ⊢
  rw [← hextends.name] at hdeclared
  refine ⟨as ++ [e], ?_, ?_⟩
  · refine hdeclared.concat (hextends.lawful hd) hextends.enclosing hsameTypes ?_
    intro owner y
    rw [hextends.numbersOf_eq, hnumber]
  · rw [anonymousNames_append, hextends.anonymousNames_eq, List.count_append]
    simp only [Lowered.bodyTypes, hsameTypes, hsameYields, List.flatMap_append,
      List.flatMap_singleton, List.count_append] at hcount ⊢
    omega

theorem given_insert (s : Lowered) (owner other : String) :
    ({ s with anonymous := s.anonymous.insert owner (s.anonymous[owner]?.getD 0 + 1) } :
      Lowered).given other =
        s.given other ++
          if owner = other then [toString (s.anonymous[owner]?.getD 0 + 1)] else [] := by
  unfold Lowered.given
  dsimp only
  rw [Std.ExtTreeMap.getElem?_insert]
  by_cases howner : owner = other
  · subst howner
    rw [Std.compare_self, if_pos rfl, if_pos rfl, Option.getD_some, List.range'_1_concat,
      List.map_append, List.map_singleton, Nat.add_comm 1]
  · simp [howner]

/-- The class is named by its number, and it is a class of that name that is declared. -/
theorem declares_anonymousClass {body : Marked} (h : Declaring rules x body)
    (superclass : TypeRef) :
    Declares rules x (some owner) (anonymousClass superclass body) (fun name => [name]) 0 := by
  intro s hs
  let number := toString (s.anonymous[owner]?.getD 0 + 1)
  let decl : TypeDecl := {
    name := owner ++ "$" ++ number
    simpleName := number
    kind := .anonymous
    modifiers := {}
    typeParams := []
    superclass := some superclass
    interfaces := []
    enclosing := some owner
    line := body.line }
  have hlawful : decl.Lawful rules :=
    ⟨⟨none, by simp, rfl⟩, fun hkind => absurd rfl hkind, fun _ => rfl, by simp [decl]⟩
  have hnumber (other : String) : numbersOf other [decl] =
      if owner = other then [number] else [] := by
    by_cases howner : owner = other
    · simp [numbersOf, decl, howner]
    · simp [numbersOf, decl, howner]
  let s' : Lowered :=
    { s with anonymous := s.anonymous.insert owner (s.anonymous[owner]?.getD 0 + 1) }
  refine exists_declared (s := s') (h.mark.members decl) (h.mark.extends_members decl) hlawful hs
    ⟨rfl, rfl, rfl⟩ (fun other y => ?_) rfl
  rw [hnumber, given_insert, List.count_append]

theorem declares_exprMeaning (token : Token) (h : ∀ c ∈ cs, Declaring rules x c) :
    Declares rules x (some owner) (exprMeaning token cs) Expr.bodyTypes 0 := by
  have hfirst (label : Label) : Declares rules x (some owner) (exprOr (first? label cs)) _ 0 :=
    declares_exprOr (declaring_first? h label)
  have hargs : Declares rules x (some owner) (arguments (first? .arguments cs)) _ 0 :=
    declares_arguments (declaring_first? h .arguments)
  have hbody {type : TypeRef} : Declares rules x (some owner)
      (((named cs).find? (·.kind == .classBody)).mapM (anonymousClass type)) _ 0 :=
    declares_mapM_option fun body hbody =>
      declares_anonymousClass (declaring_named h body (List.mem_of_find?_eq_some hbody)) type
  unfold exprMeaning
  split
  · exact declares_exprOr (declaring_head? h)
  all_goals try exact declares_pure (Nat.le_refl 0)
  · refine (declares_receiver h).last fun receiver => hargs.next fun args => declares_pure ?_
    simp only [Expr.bodyTypes, Expr.bodyTypesIn_eq, List.count_append]
    omega
  · refine hargs.last fun args => hbody.next fun bodyType => declares_pure (Nat.le_of_eq ?_)
    cases bodyType with
    | none => simp
    | some name => simp [List.count_cons, Nat.add_comm]
  · exact declares_fieldAccess h
  · refine (hfirst _).last fun target => (hfirst _).next fun value => declares_pure ?_
    split
    · simp [Nat.add_comm]
    · simp [Nat.add_comm]
  · refine (hfirst _).last fun left => (hfirst _).next fun right => declares_pure ?_
    simp [Nat.add_comm]
  · exact (hfirst _).last fun value => declares_pure (Nat.le_refl _)
  · exact (hfirst _).last fun value => declares_pure (Nat.le_refl _)
  · refine (hfirst _).last fun condition => (hfirst _).next fun yes => (hfirst _).next fun no =>
      declares_pure ?_
    simp only [Expr.bodyTypes, List.count_append]
    omega
  · refine (hfirst _).last fun array => (hfirst _).next fun index => declares_pure ?_
    simp [Nat.add_comm]
  · refine (declares_mapM fun c hc => declares_arrayPart (declaring_named h c hc)).last fun parts =>
      declares_pure ?_
    simp [List.flatMap_assoc]
  · split
    · next body hbody =>
      refine (declares_collectYields (declares_block (declaring_first? h _ body hbody))).last
        fun collected => declares_pure ?_
      simp
    · exact declares_pure (Nat.le_refl 0)
  · exact (declares_methodRefReceiver h).last fun _ => declares_pure (Nat.le_refl _)
  · exact declares_switchExpr h
  · exact (declares_innerExprs h).last fun _ => declares_pure (by simp)

/-! ### Statements -/

theorem declares_localVar (h : Declaring rules x t) (type : TypeRef) :
    Declares rules x (some owner) (localVar type t) Stmt.bodyTypes 0 := by
  have hinit := declares_mapM_option fun c hc => (h.child? .value c hc).mark.expr owner
  refine hinit.last fun init => declares_pure ?_
  cases init with
  | none => exact Nat.le_refl 0
  | some init => exact Nat.le_refl _

theorem declares_resource (h : ∀ c ∈ cs, Declaring rules x c) :
    Declares rules x (some owner) (resource cs) (·.flatMap Stmt.bodyTypes) 0 := by
  unfold resource
  split
  · have hinit := declares_mapM_option fun c hc =>
      (declaring_first? h .value c hc).mark.expr owner
    refine hinit.last fun init => declares_pure ?_
    cases init with
    | none => exact Nat.le_refl 0
    | some init => simp
  · exact (declares_exprs (declaring_named h)).last fun _ => declares_pure (by simp)

theorem declares_forEach (h : ∀ c ∈ cs, Declaring rules x c) :
    Declares rules x (some owner) (forEach cs) (·.flatMap Stmt.bodyTypes) 0 := by
  refine (declares_exprOr (declaring_first? h _)).last fun iterable => ?_
  cases hbody : first? .body cs with
  | none => exact declares_pure (by simp)
  | some body =>
    refine ((declaring_first? h _ body hbody).mark.stmts owner).next fun ss => declares_pure ?_
    simp [Nat.add_comm]

theorem declares_stmtsMeaning (token : Token) (h : ∀ c ∈ cs, Declaring rules x c)
    {declare : Option String → Lower Unit}
    (hdeclare : token.kind.isTypeDeclaration → ∀ outer,
      Declares rules x outer (declare outer) (fun _ => []) 0) :
    Declares rules x (some owner) (stmtsMeaning token cs declare) (·.flatMap Stmt.bodyTypes) 0 := by
  unfold stmtsMeaning
  split
  · exact declares_mapM fun c hc => declares_localVar (h c (List.mem_filter.mp hc).1) _
  · exact (declares_exprs (declaring_named h)).last fun _ => declares_pure (by simp)
  · have hvalue := declares_mapM_option fun c hc => (declaring_head? h c hc).mark.expr owner
    refine hvalue.last fun value => declares_pure ?_
    cases value with
    | none => exact Nat.le_refl 0
    | some value => simp
  · split
    · next value hvalue =>
      exact ((declaring_head? h value hvalue).mark.expr owner).last declares_yieldValue
    · exact declares_pure (Nat.le_refl 0)
  · exact (declares_arguments (declaring_first? h _)).last fun _ => declares_pure (by simp)
  · exact declares_forEach h
  · exact declares_pure (Nat.le_refl 0)
  · exact declares_resource h
  · exact declares_pure (Nat.le_refl 0)
  · exact declares_pure (Nat.le_refl 0)
  · exact declares_pure (Nat.le_refl 0)
  · exact declares_pure (Nat.le_refl 0)
  · exact declares_concatM fun c hc =>
      (declaring_named h c (List.mem_filter.mp hc).1).mark.stmts owner
  · split
    · next htype =>
      have hlocal : Declares rules x (some owner) (do declare (some owner); return [])
          (·.flatMap Stmt.bodyTypes) 0 :=
        (hdeclare htype _).last fun _ => declares_pure (Nat.le_refl 0)
      exact hlocal
    · split
      · exact (declares_exprMeaning token h).last fun _ => declares_pure (by simp)
      · exact declares_concatM fun c hc => (declaring_named h c hc).mark.stmts owner

/-! ### Declarations -/

theorem spread_params (list : Option (Tree α)) : ∀ p ∈ params list, p.Spread := by
  cases list with
  | none => simp [params]
  | some list =>
    intro p hp hvarargs
    obtain ⟨c, -, hc⟩ := List.mem_filterMap.mp hp
    unfold param? at hc
    split at hc
    · cases hc
      cases hvarargs
    · cases hc
      exact Nat.succ_pos _
    · cases hc
      cases hvarargs
    · cases hc

theorem declares_fieldDecl (h : Declaring rules x t) (type : TypeRef) (isStatic : Bool) :
    Declares rules x (some owner) (fieldDecl type isStatic t) FieldDecl.bodyTypes 0 :=
  (declares_mapM_option fun c hc => (h.child? .value c hc).mark.expr owner).last fun _ =>
    declares_pure (Nat.le_refl _)

/-- A method without a body names nothing, and neither does one with an empty body. -/
theorem declares_body (h : Declaring rules x t) :
    Declares rules x (some owner) ((t.child? .body).mapM block)
      (fun body => (body.getD []).flatMap Stmt.bodyTypes) 0 := by
  cases hbody : t.child? .body with
  | none => exact declares_pure (Nat.le_refl 0)
  | some body =>
    exact (declares_block (h.child? _ body hbody)).last fun _ => declares_pure (Nat.le_refl _)

theorem declares_methodDecl (h : Declaring rules x t) (inInterface : Bool) :
    Declares rules x (some owner) (methodDecl inInterface t) MethodDecl.bodyTypes 0 := by
  exact (declares_body h).last fun body => declares_pure (Nat.le_refl _)

theorem declares_constructorDecl (h : Declaring rules x t) (simpleName : String) :
    Declares rules x (some owner) (constructorDecl simpleName t) MethodDecl.bodyTypes 0 := by
  exact (declares_body h).last fun body => declares_pure (Nat.le_refl _)

theorem returns_methodDecl (inInterface : Bool) :
    Returns (methodDecl inInterface t) MethodDecl.Spread :=
  (returns_any _).bind fun _ _ => returns_pure (spread_params _)

theorem returns_constructorDecl (simpleName : String) :
    Returns (constructorDecl simpleName t) MethodDecl.Spread :=
  (returns_any _).bind fun _ _ => returns_pure (spread_params _)

theorem declares_enumConstant (h : Declaring rules x t) (decl : TypeDecl) :
    Declares rules x (some owner) (enumConstant decl t) FieldDecl.bodyTypes 0 :=
  (declares_arguments (h.child? _)).last fun _ => declares_pure (by simp [FieldDecl.bodyTypes])

theorem declares_staticBlock (h : Declaring rules x t) :
    Declares rules x (some owner) (staticBlock t) (·.flatMap Stmt.bodyTypes) 0 := by
  unfold staticBlock
  split
  · next b hb => exact declares_block (h.namedChildren b (List.mem_of_find?_eq_some hb))
  · exact declares_pure (Nat.le_refl 0)

theorem declares_member (h : Declaring rules x t) (decl : TypeDecl) :
    Declares rules x (some decl.name) (member decl t) TypeDecl.bodyTypes
      (decl.bodyTypes.count x) := by
  have hfields (type : TypeRef) (isStatic : Bool) :
      Declares rules x (some decl.name)
        ((labelled .declarator t.children).mapM (fieldDecl type isStatic)) _ 0 :=
    declares_mapM fun c hc => declares_fieldDecl (h.children c (List.mem_filter.mp hc).1) _ _
  unfold member
  split
  · refine (hfields _ _).next fun fields => declares_pure ?_
    rw [TypeDecl.count_bodyTypes_addFields, Nat.add_comm]
  · refine (hfields _ _).next fun fields => declares_pure ?_
    rw [TypeDecl.count_bodyTypes_addFields, Nat.add_comm]
  · refine (declares_methodDecl h _).next fun method => declares_pure ?_
    rw [TypeDecl.count_bodyTypes_addMethod, Nat.add_comm]
  · refine (declares_constructorDecl h _).next fun method => declares_pure ?_
    rw [TypeDecl.count_bodyTypes_addMethod, Nat.add_comm]
  · refine (declares_block h).next fun body => declares_pure ?_
    rw [TypeDecl.count_bodyTypes_addInitializer, Nat.add_comm]
    rfl
  · refine (declares_staticBlock h).next fun body => declares_pure ?_
    rw [TypeDecl.count_bodyTypes_addInitializer, Nat.add_comm]
    rfl
  · refine (declares_enumConstant h decl).next fun field => declares_pure ?_
    rw [TypeDecl.count_bodyTypes_addFields, Nat.add_comm, List.flatMap_singleton]
  · exact h.mark.members decl
  · dsimp only
    split
    · next htype =>
      refine (h.mark.declare htype _).next fun _ => declares_pure (Nat.le_of_eq ?_)
      exact (Nat.zero_add _).symm
    · exact declares_pure (Nat.le_refl _)

theorem returns_member_extends (h : Declaring rules x t) (decl : TypeDecl) :
    Returns (member decl t) decl.Extends := by
  unfold member
  split
  · exact (returns_any _).bind fun _ _ => returns_pure (.rest decl _ _)
  · exact (returns_any _).bind fun _ _ => returns_pure (.rest decl _ _)
  · exact (returns_methodDecl _).bind fun _ hm => returns_pure (.addMethod decl hm)
  · exact (returns_constructorDecl _).bind fun _ hm => returns_pure (.addMethod decl hm)
  · exact (returns_any _).bind fun _ _ => returns_pure (.rest decl _ _)
  · exact (returns_any _).bind fun _ _ => returns_pure (.rest decl _ _)
  · exact (returns_any _).bind fun _ _ => returns_pure (.rest decl _ _)
  · exact h.mark.extends_members decl
  · dsimp only
    split
    · exact (returns_any _).bind fun _ _ => returns_pure (.refl decl)
    · exact returns_pure (.refl decl)

section Members

variable (h : ∀ c ∈ cs, Declaring rules x c) (decl : TypeDecl)

include h

theorem returns_member_of_extends {d : TypeDecl} (hd : decl.Extends d) :
    ∀ c ∈ named cs, Returns (member d c) decl.Extends := fun c hc owner s =>
  hd.trans (returns_member_extends (declaring_named h c hc) d owner s)

theorem returns_membersMeaning : Returns (membersMeaning cs decl) decl.Extends :=
  returns_foldlM (fun c hc _ hd => returns_member_of_extends h decl hd c hc) (.refl decl)

theorem declares_membersMeaning :
    Declares rules x (some decl.name) (membersMeaning cs decl) TypeDecl.bodyTypes
      (decl.bodyTypes.count x) := by
  refine declares_foldlM (fun c hc d hd => ?_)
    (fun c hc _ hd => returns_member_of_extends h decl hd c hc) (.refl decl)
  -- The type that the fold has reached is still called `decl.name`.
  rw [← hd.name]
  exact declares_member (declaring_named h c hc) d

end Members

/-! ### Records -/

theorem extends_addComponent (decl : TypeDecl) (component : Param) :
    decl.Extends (addComponent decl component) := by
  have haccessor : (accessor decl component).Spread := fun p hp => by cases hp
  unfold addComponent
  dsimp only
  split
  · exact .rest decl _ _
  · exact (TypeDecl.Extends.addMethod decl haccessor).trans (.rest _ _ _)

theorem bodyTypes_addComponent (decl : TypeDecl) (component : Param) :
    (addComponent decl component).bodyTypes = decl.bodyTypes := by
  have haccessor : (accessor decl component).bodyTypes = [] := rfl
  unfold addComponent
  dsimp only
  split
  · simp [TypeDecl.bodyTypes, FieldDecl.bodyTypes]
  · simp [TypeDecl.bodyTypes, FieldDecl.bodyTypes, haccessor]

theorem addComponents_rest (components : List Param) (decl : TypeDecl) :
    decl.Extends (components.foldl addComponent decl) ∧
      (components.foldl addComponent decl).bodyTypes = decl.bodyTypes := by
  refine List.foldlRecOn (motive := fun d => decl.Extends d ∧ d.bodyTypes = decl.bodyTypes)
    components addComponent ⟨.refl decl, rfl⟩ fun d hd component _ => ?_
  exact ⟨hd.1.trans (extends_addComponent d component),
    (bodyTypes_addComponent d component).trans hd.2⟩

section Completed

variable {components : List Param} (compact : List Stmt) (decl : TypeDecl)

theorem extends_completed (h : ∀ p ∈ components, p.Spread) :
    decl.Extends (completed components compact decl) := by
  have hadded := (addComponents_rest components decl).1
  unfold completed
  dsimp only
  split
  · exact hadded
  · exact hadded.trans (.addMethod _ h)

theorem count_bodyTypes_completed :
    (completed components compact decl).bodyTypes.count x ≤
      decl.bodyTypes.count x + (compact.flatMap Stmt.bodyTypes).count x := by
  have hadded := (addComponents_rest components decl).2
  have hcanonical (d : TypeDecl) :
      (canonical d components compact).bodyTypes = compact.flatMap Stmt.bodyTypes := by
    simp [canonical, MethodDecl.bodyTypes, List.flatMap_map, componentAccess]
  unfold completed
  dsimp only
  split
  · rw [hadded]
    exact Nat.le_add_right _ _
  · rw [TypeDecl.count_bodyTypes_addMethod, hadded, hcanonical]

end Completed

theorem declares_compactBody (h : Declaring rules x t) (found : List Stmt) :
    Declares rules x (some owner) (compactBody found t) (·.flatMap Stmt.bodyTypes)
      ((found.flatMap Stmt.bodyTypes).count x) := by
  unfold compactBody
  split
  · next body _ hbody => exact (declares_block (h.child? _ body hbody)).mono (Nat.zero_le _)
  · exact declares_pure (Nat.le_refl _)

section Records

variable {components : List Param} (h : ∀ c ∈ o, Declaring rules x c) (decl : TypeDecl)

include h

theorem returns_recordMembers (hspread : ∀ p ∈ components, p.Spread) :
    Returns (recordMembers components o decl) decl.Extends := by
  cases o with
  | none =>
    rw [recordMembers_none]
    exact returns_pure (extends_completed [] decl hspread)
  | some body =>
    rw [recordMembers_eq]
    refine (returns_any _).bind fun compact _ => ?_
    refine ((h body rfl).mark.extends_members decl).bind fun d hd => ?_
    exact returns_pure (hd.trans (extends_completed compact d hspread))

theorem declares_recordMembers :
    Declares rules x (some decl.name) (recordMembers components o decl) TypeDecl.bodyTypes
      (decl.bodyTypes.count x) := by
  cases o with
  | none =>
    rw [recordMembers_none]
    exact declares_pure (count_bodyTypes_completed [] decl)
  | some body =>
    have hcompact : Declares rules x (some decl.name) (body.namedChildren.foldlM compactBody [])
        (·.flatMap Stmt.bodyTypes) 0 :=
      declares_foldlM
        (fun c hc found _ => declares_compactBody ((h body rfl).namedChildren c hc) found)
        (fun _ _ _ _ => returns_any _) trivial
    rw [recordMembers_eq]
    refine hcompact.next fun compact => ?_
    refine ((h body rfl).mark.members decl).bind _ (fun d => declares_pure ?_) (Nat.add_comm _ _)
    exact count_bodyTypes_completed compact d

end Records

/-! ### Type declarations -/

theorem kindOf_ne_anonymous (kind : Kind) : kindOf kind ≠ .anonymous := by
  unfold kindOf
  split <;> simp

/-- A type that is not anonymous takes no number. -/
theorem declares_newType {a : Lower TypeDecl} {d : TypeDecl} (hd : d.Lawful rules)
    (hkind : d.kind ≠ .anonymous)
    (ha : Declares rules x (some d.name) a TypeDecl.bodyTypes 0 ∧ Returns a d.Extends) :
    Declares rules x d.enclosing (do addType (← inType d.name a)) (fun _ => []) 0 := by
  intro s hs
  have hnone : anonymousNames [d] = [] := by simp [anonymousNames, hkind]
  have hnumber (owner : String) : numbersOf owner [d] = [] := by simp [numbersOf, hkind]
  rw [← hnone]
  refine exists_declared (s := s) ha.1 ha.2 hd hs ⟨rfl, rfl, rfl⟩ (fun owner y => ?_) rfl
  rw [hnumber]
  rfl

theorem declares_declareMeaning {token : Token} (h : ∀ c ∈ cs, Declaring rules x c)
    (hname : rules.simple (((first? .name cs).map text).getD "")) (outer : Option String) :
    Declares rules x outer (declareMeaning token cs outer) (fun _ => []) 0 := by
  refine declares_get fun s hs => ?_
  let simpleName := ((first? .name cs).map text).getD ""
  let kind := kindOf token.kind
  let modifiers := modifiers cs
  let decl : TypeDecl := {
    name := qualifiedName s.package outer simpleName
    simpleName, kind
    modifiers := { modifiers with isAbstract := modifiers.isAbstract || kind == .interface }
    typeParams := typeParams cs
    superclass := superclassOf token simpleName cs
    interfaces := interfacesOf cs
    enclosing := outer
    line := token.row + 1 }
  have hkind : decl.kind ≠ .anonymous := kindOf_ne_anonymous token.kind
  have hbody := declaring_first? h .body
  refine declares_newType (d := decl) ?_ hkind ?_
  · exact ⟨⟨s.package, hs, rfl⟩, fun _ => hname, fun h => absurd h hkind, by simp [decl]⟩
  -- The members of a record are read otherwise than those of another type.
  · split
    · exact ⟨declares_recordMembers hbody decl, returns_recordMembers hbody decl (spread_params _)⟩
    · split
      · next body hfound =>
        exact ⟨(hbody body hfound).mark.members decl, (hbody body hfound).mark.extends_members decl⟩
      · exact ⟨declares_pure (Nat.le_refl 0), returns_pure (.refl decl)⟩

/-- The meaning of a node declares types by the rules when the nodes below it do. -/
theorem declaring_meaning {token : Token} (h : ∀ c ∈ cs, Declaring rules x c)
    (hname : token.kind.isTypeDeclaration → rules.simple (((first? .name cs).map text).getD "")) :
    (meaning token cs).Declaring rules x token.kind where
  expr _ := declares_exprMeaning token h
  stmts _ := declares_stmtsMeaning token h fun htype => declares_declareMeaning h (hname htype)
  members := declares_membersMeaning h
  extends_members := returns_membersMeaning h
  declare htype := declares_declareMeaning h (hname htype)

theorem declaring_annotate {tree : SyntaxTree} (h : tree.Everywhere fun t =>
    t.kind.isTypeDeclaration → rules.simple (t.childText .name)) :
    Declaring rules x (tree.annotate meaning) := by
  refine h.annotate fun t ht hbelow => ?_
  have hname : (t.annotate meaning).kind.isTypeDeclaration →
      rules.simple ((t.annotate meaning).childText .name) := by simpa using ht
  cases t with
  | node token m cs => exact declaring_meaning hbelow hname

theorem declares_topLevel (h : Declaring rules x t) (hpackage : t.kind = .packageDeclaration →
    ∀ p ∈ dottedName? t.namedChildren, rules.package p) :
    Declares rules x none (topLevel t) (fun _ => []) 0 := by
  unfold topLevel
  split
  · next hkind =>
    intro s _
    exact ⟨[], .of_same (hpackage (by simpa using hkind)) rfl rfl, (Nat.zero_add _).le⟩
  · split
    · next htype => exact h.mark.declare htype none
    · exact declares_pure (Nat.le_refl 0)

end Lower

/-- The types of a file are declared by the rules that its own names follow. -/
theorem CompilationUnit.exists_declared_ofTree (rules : NameRules) {tree : SyntaxTree}
    (hsimple : tree.Everywhere fun t =>
      t.kind.isTypeDeclaration → rules.simple (t.childText .name))
    (hpackage : ∀ t ∈ tree.namedChildren, t.kind = .packageDeclaration →
      ∀ p ∈ Tree.dottedName? t.namedChildren, rules.package p) (path : String)
    (hasErrors : Bool) :
    ∃ s, Declared rules none {} s (ofTree path hasErrors tree).types ∧
      ∀ x, (ofTree path hasErrors tree).bodyTypes.count x ≤
        (anonymousNames (ofTree path hasErrors tree).types).count x := by
  have hitems (x : String) : Lower.Declares rules x none
      ((tree.annotate Lower.meaning).namedChildren.forM Lower.topLevel) (fun _ => []) 0 := by
    refine Lower.declares_forM fun t ht => ?_
    refine Lower.declares_topLevel ((Lower.declaring_annotate hsimple).namedChildren t ht) ?_
    rw [Tree.namedChildren_annotate] at ht
    obtain ⟨c, hc, rfl⟩ := List.mem_map.mp ht
    simpa using hpackage c hc
  have htypes {added : List TypeDecl} (h : Declared rules none {} _ added) :
      (ofTree path hasErrors tree).types = added := h.types
  obtain ⟨added, hdeclared, -⟩ := hitems "" {} (by simp)
  refine ⟨_, htypes hdeclared ▸ hdeclared, fun x => ?_⟩
  obtain ⟨added, hdeclared, hcount⟩ := hitems x {} (by simp)
  rw [← htypes hdeclared, Lowered.bodyTypes, List.count_append] at hcount
  change _ + ((ofTree path hasErrors tree).bodyTypes.count x + _) ≤ 0 + 0 + _ at hcount
  omega

end JavaCallGraph
