import JavaCallGraph.Proofs.CallAccounts

/-!
# Types that lowering declares

Lowering declares a type when it comes to the end of its body, so the types inside another one come
before it. An anonymous class has no name of its own and is numbered in the type around it.
`Declared` says what the types are like that some part of the reading adds, and `Declares` says of
an action that it adds such types, and that it names each anonymous class at most once.
-/

namespace JavaCallGraph

/-! ### Expressions with a class body -/

mutual

/-- The anonymous classes that the expressions in an expression name, each as often as they do. -/
@[simp] def Expr.bodyTypes : Expr → List String
  | .new _ args bodyType _ => bodyType.toList ++ Expr.bodyTypesIn args
  | .call receiver _ args _ => receiver.bodyTypes ++ Expr.bodyTypesIn args
  | .fieldAccess receiver _ => receiver.bodyTypes
  | .name _ | .this _ | .super | .literal _ => []
  | .binary _ left right => left.bodyTypes ++ right.bodyTypes
  | .instanceOf value _ _ => value.bodyTypes
  | .assign target value => target.bodyTypes ++ value.bodyTypes
  | .cast _ value => value.bodyTypes
  | .conditional condition yes no => condition.bodyTypes ++ (yes.bodyTypes ++ no.bodyTypes)
  | .arrayAccess array index => array.bodyTypes ++ index.bodyTypes
  | .arrayNew _ elements => Expr.bodyTypesIn elements
  | .lambda _ body => Stmt.bodyTypesIn body
  | .switch selector body values =>
    selector.bodyTypes ++ (Stmt.bodyTypesIn body ++ Expr.bodyTypesIn values)
  | .methodRef receiver _ => receiver.bodyTypes
  | .other parts => Expr.bodyTypesIn parts

def Expr.bodyTypesIn : List Expr → List String
  | [] => []
  | e :: es => e.bodyTypes ++ Expr.bodyTypesIn es

@[simp] def Receiver.bodyTypes : Receiver → List String
  | .implicit | .super | .qualifiedSuper _ => []
  | .expr value => value.bodyTypes

@[simp] def Stmt.bodyTypes : Stmt → List String
  | .localVar _ _ none | .ret none => []
  | .localVar _ _ (some init) => init.bodyTypes
  | .forEach _ _ iterable => iterable.bodyTypes
  | .expr value | .ret (some value) => value.bodyTypes
  | .ctorCall _ args _ => Expr.bodyTypesIn args

def Stmt.bodyTypesIn : List Stmt → List String
  | [] => []
  | s :: ss => s.bodyTypes ++ Stmt.bodyTypesIn ss

end

@[simp] theorem Expr.bodyTypesIn_eq (es : List Expr) :
    Expr.bodyTypesIn es = es.flatMap Expr.bodyTypes := by
  induction es with
  | nil => rfl
  | cons e es ih => rw [Expr.bodyTypesIn, ih, List.flatMap_cons]

@[simp] theorem Stmt.bodyTypesIn_eq (ss : List Stmt) :
    Stmt.bodyTypesIn ss = ss.flatMap Stmt.bodyTypes := by
  induction ss with
  | nil => rfl
  | cons s ss ih => rw [Stmt.bodyTypesIn, ih, List.flatMap_cons]

@[simp] theorem Stmt.flatMap_bodyTypes_expr (es : List Expr) :
    (es.map Stmt.expr).flatMap Stmt.bodyTypes = es.flatMap Expr.bodyTypes := by
  simp [List.flatMap_map]

def FieldDecl.bodyTypes (f : FieldDecl) : List String := (f.init.map Expr.bodyTypes).getD []

def MethodDecl.bodyTypes (m : MethodDecl) : List String := (m.body.getD []).flatMap Stmt.bodyTypes

def Initializer.bodyTypes (i : Initializer) : List String := i.body.flatMap Stmt.bodyTypes

def TypeDecl.bodyTypes (d : TypeDecl) : List String :=
  d.fields.flatMap FieldDecl.bodyTypes ++
    (d.methods.flatMap MethodDecl.bodyTypes ++ d.initializers.flatMap Initializer.bodyTypes)

def CompilationUnit.bodyTypes (u : CompilationUnit) : List String :=
  u.types.flatMap TypeDecl.bodyTypes

def Lowered.bodyTypes (s : Lowered) : List String :=
  s.types.flatMap TypeDecl.bodyTypes ++
    s.yields.flatMap fun found => found.flatMap Expr.bodyTypes

section Members

variable (d : TypeDecl) (x : String)

theorem TypeDecl.count_bodyTypes_addFields (fields : List FieldDecl) :
    { d with fields := d.fields ++ fields }.bodyTypes.count x =
      d.bodyTypes.count x + (fields.flatMap FieldDecl.bodyTypes).count x := by
  simp only [bodyTypes, List.flatMap_append, List.count_append]
  omega

theorem TypeDecl.count_bodyTypes_addMethod (m : MethodDecl) :
    { d with methods := d.methods ++ [m] }.bodyTypes.count x =
      d.bodyTypes.count x + m.bodyTypes.count x := by
  simp only [bodyTypes, List.flatMap_append, List.flatMap_singleton, List.count_append]
  omega

theorem TypeDecl.count_bodyTypes_addInitializer (i : Initializer) :
    { d with initializers := d.initializers ++ [i] }.bodyTypes.count x =
      d.bodyTypes.count x + i.bodyTypes.count x := by
  simp only [bodyTypes, List.flatMap_append, List.flatMap_singleton, List.count_append]
  omega

end Members

/-! ### Types and the types around them -/

def Param.Spread (p : Param) : Prop := p.isVarargs → 0 < p.type.dims

def MethodDecl.Spread (m : MethodDecl) : Prop := ∀ p ∈ m.params, p.Spread

structure NameRules where
  simple : String → Prop
  package : String → Prop

/-- The type is named after the type or the package around it, an anonymous class after a type. -/
structure TypeDecl.Lawful (rules : NameRules) (d : TypeDecl) : Prop where
  named : ∃ package : Option String, (∀ p ∈ package, rules.package p) ∧
    d.name = Lower.qualifiedName package d.enclosing d.simpleName
  written : d.kind ≠ .anonymous → rules.simple d.simpleName
  inside : d.kind = .anonymous → d.enclosing.isSome
  spread : ∀ m ∈ d.methods, m.Spread

def Enclosed (outer : Option String) : List TypeDecl → Prop
  | [] => True
  | d :: ds =>
    (∀ owner ∈ d.enclosing, outer = some owner ∨ ∃ e ∈ ds, e.name = owner) ∧ Enclosed outer ds

theorem Enclosed.append {outer : Option String} {ds es : List TypeDecl} (h : Enclosed outer ds)
    (h' : Enclosed outer es) : Enclosed outer (ds ++ es) := by
  induction ds with
  | nil => exact h'
  | cons d ds ih =>
    refine ⟨fun owner howner => ?_, ih h.2⟩
    refine (h.1 owner howner).imp_right fun ⟨e, he, hname⟩ => ?_
    exact ⟨e, List.mem_append_left es he, hname⟩

/-- When a type ends, it comes after the types in its body. -/
theorem Enclosed.concat {outer : Option String} {ds : List TypeDecl} {d : TypeDecl}
    (h : Enclosed (some d.name) ds) (houter : d.enclosing = outer) :
    Enclosed outer (ds ++ [d]) := by
  induction ds with
  | nil => exact ⟨fun owner howner => .inl (houter ▸ howner), trivial⟩
  | cons e ds ih =>
    refine ⟨fun owner howner => .inr ?_, ih h.2⟩
    rcases h.1 owner howner with hname | ⟨e, he, hname⟩
    · exact ⟨d, by simp, Option.some.inj hname⟩
    · exact ⟨e, List.mem_append_left [d] he, hname⟩

/-! ### Numbers of anonymous classes -/

def anonymousNames (types : List TypeDecl) : List String :=
  (types.filter (·.kind == .anonymous)).map (·.name)

def numbersOf (owner : String) (types : List TypeDecl) : List String :=
  (types.filter fun d => d.kind == .anonymous && d.enclosing == some owner).map (·.simpleName)

def Lowered.given (s : Lowered) (owner : String) : List String :=
  (List.range' 1 (s.anonymous[owner]?.getD 0)).map toString

theorem anonymousNames_append (ds es : List TypeDecl) :
    anonymousNames (ds ++ es) = anonymousNames ds ++ anonymousNames es := by
  simp [anonymousNames]

theorem numbersOf_append (owner : String) (ds es : List TypeDecl) :
    numbersOf owner (ds ++ es) = numbersOf owner ds ++ numbersOf owner es := by
  simp [numbersOf]

/-! ### What is declared between two states -/

/-- From one state to the other the types `added` are read to their end, in the body of `outer`. -/
structure Declared (rules : NameRules) (outer : Option String) (s s' : Lowered)
    (added : List TypeDecl) : Prop where
  package : ∀ p ∈ s'.package, rules.package p
  types : s'.types = s.types ++ added
  enclosed : Enclosed outer added
  lawful : ∀ d ∈ added, d.Lawful rules
  numbered : ∀ owner y,
    (s'.given owner).count y = (s.given owner).count y + (numbersOf owner added).count y

namespace Declared

variable {rules : NameRules} {outer : Option String} {r s s' : Lowered} {as bs : List TypeDecl}

theorem of_same (hpackage : ∀ p ∈ s'.package, rules.package p) (htypes : s'.types = s.types)
    (hanonymous : s'.anonymous = s.anonymous) : Declared rules outer s s' [] where
  package := hpackage
  types := by rw [htypes, List.append_nil]
  enclosed := trivial
  lawful d hd := by cases hd
  numbered owner y := by rw [Lowered.given, hanonymous]; rfl

theorem trans (h : Declared rules outer r s as) (h' : Declared rules outer s s' bs) :
    Declared rules outer r s' (as ++ bs) where
  package := h'.package
  types := by rw [h'.types, h.types, List.append_assoc]
  enclosed := h.enclosed.append h'.enclosed
  lawful d hd := (List.mem_append.mp hd).elim (h.lawful d) (h'.lawful d)
  numbered owner y := by
    rw [h'.numbered, h.numbered, numbersOf_append, List.count_append, Nat.add_assoc]

/-- A type ends after the types in its body. Its number, if it has one, was given before them. -/
theorem concat {d : TypeDecl} (h : Declared rules (some d.name) s s' as) (hd : d.Lawful rules)
    (houter : d.enclosing = outer) (htypes : s.types = r.types)
    (hnumber : ∀ owner y,
      (s.given owner).count y = (r.given owner).count y + (numbersOf owner [d]).count y) :
    Declared rules outer r { s' with types := s'.types ++ [d] } (as ++ [d]) where
  package := h.package
  types := by rw [← htypes, ← List.append_assoc, ← h.types]
  enclosed := h.enclosed.concat houter
  lawful e he := by
    rcases List.mem_append.mp he with he | he
    · exact h.lawful e he
    · exact List.mem_singleton.mp he ▸ hd
  numbered owner y := by
    have hinner := h.numbered owner y
    have hown := hnumber owner y
    rw [numbersOf_append, List.count_append]
    change (s'.given owner).count y = _
    omega

end Declared

/-! ### Actions that declare types -/

namespace Lower

variable {α β : Type} {rules : NameRules} {x : String} {outer : Option String} {m n : Nat}
  {f : α → List String} {g : β → List String}

/-- In the body of `outer` the action declares types by the rules. What it returns and leaves names
the anonymous class `x` at most as often as it is declared, and `n` times more. -/
def Declares (rules : NameRules) (x : String) (outer : Option String) (a : Lower α)
    (f : α → List String) (n : Nat) : Prop :=
  ∀ s : Lowered, (∀ p ∈ s.package, rules.package p) →
    ∃ added, Declared rules outer s (a outer s).2 added ∧
      (f (a outer s).1).count x + (a outer s).2.bodyTypes.count x ≤
        s.bodyTypes.count x + n + (anonymousNames added).count x

theorem Declares.mono {a : Lower α} (h : Declares rules x outer a f m) (hn : m ≤ n) :
    Declares rules x outer a f n := by
  intro s hs
  obtain ⟨added, hdeclared, hcount⟩ := h s hs
  exact ⟨added, hdeclared, by omega⟩

theorem declares_pure {v : α} (h : (f v).count x ≤ n) : Declares rules x outer (pure v) f n := by
  intro s hs
  refine ⟨[], .of_same hs rfl rfl, ?_⟩
  change (f v).count x + s.bodyTypes.count x ≤ _
  omega

/-- What the first action returns and the `rest` may be named by the second one. -/
theorem Declares.bind_of_returns {a : Lower α} {b : α → Lower β} {P : α → Prop} (rest : Nat)
    (ha : Declares rules x outer a f m) (hreturns : Returns a P)
    (hb : ∀ v, P v → Declares rules x outer (b v) g ((f v).count x + rest)) (hn : m + rest = n) :
    Declares rules x outer (a >>= b) g n := by
  intro s hs
  obtain ⟨as, hdeclared, hcount⟩ := ha s hs
  obtain ⟨bs, hdeclared', hcount'⟩ := hb _ (hreturns outer s) (a outer s).2 hdeclared.package
  refine ⟨as ++ bs, hdeclared.trans hdeclared', ?_⟩
  rw [anonymousNames_append, List.count_append]
  change (g (b (a outer s).1 outer (a outer s).2).1).count x +
    (b (a outer s).1 outer (a outer s).2).2.bodyTypes.count x ≤ _
  omega

theorem Declares.bind {a : Lower α} {b : α → Lower β} (rest : Nat)
    (ha : Declares rules x outer a f m)
    (hb : ∀ v, Declares rules x outer (b v) g ((f v).count x + rest)) (hn : m + rest = n) :
    Declares rules x outer (a >>= b) g n :=
  ha.bind_of_returns rest (returns_any a) (fun v _ => hb v) hn

/-- Only what the first action returned may be named by the second one. -/
theorem Declares.last {a : Lower α} {b : α → Lower β} (ha : Declares rules x outer a f n)
    (hb : ∀ v, Declares rules x outer (b v) g ((f v).count x)) :
    Declares rules x outer (a >>= b) g n :=
  ha.bind 0 hb (Nat.add_zero n)

/-- A second action after one from which nothing is left over. -/
theorem Declares.next {a : Lower α} {b : α → Lower β} (ha : Declares rules x outer a f 0)
    (hb : ∀ v, Declares rules x outer (b v) g ((f v).count x + n)) :
    Declares rules x outer (a >>= b) g n :=
  ha.bind n hb (Nat.zero_add n)

theorem declares_get {b : Lowered → Lower β} (hb : ∀ s : Lowered,
    (∀ p ∈ s.package, rules.package p) → Declares rules x outer (b s) g n) :
    Declares rules x outer (get >>= b) g n := fun s hs => hb s hs s hs

theorem declares_mapM {a : α → Lower β} {l : List α}
    (h : ∀ v ∈ l, Declares rules x outer (a v) g 0) :
    Declares rules x outer (l.mapM a) (·.flatMap g) 0 := by
  induction l with
  | nil => exact declares_pure (Nat.le_refl 0)
  | cons v l ih =>
    rw [List.mapM_cons]
    refine (h v List.mem_cons_self).last fun r => ?_
    refine (ih fun w hw => h w (List.mem_cons_of_mem v hw)).next fun rs => declares_pure ?_
    rw [List.flatMap_cons, List.count_append, Nat.add_comm]

theorem declares_mapM_option {a : α → Lower β} {o : Option α}
    (h : ∀ v ∈ o, Declares rules x outer (a v) g 0) :
    Declares rules x outer (o.mapM a) (fun r => (r.map g).getD []) 0 := by
  cases o with
  | none => exact declares_pure (Nat.le_refl 0)
  | some v => exact (h v rfl).last fun r => declares_pure (Nat.le_refl _)

/-- What is folded carries the names that are found on the way. -/
theorem declares_foldlM {a : β → α → Lower β} {l : List α} {P : β → Prop}
    (h : ∀ v ∈ l, ∀ b, P b → Declares rules x outer (a b v) g ((g b).count x))
    (hreturns : ∀ v ∈ l, ∀ b, P b → Returns (a b v) P) {b : β} (hb : P b) :
    Declares rules x outer (l.foldlM a b) g ((g b).count x) := by
  induction l generalizing b with
  | nil => exact declares_pure (Nat.le_refl _)
  | cons v l ih =>
    rw [List.foldlM_cons]
    refine (h v List.mem_cons_self b hb).bind_of_returns 0 (hreturns v List.mem_cons_self b hb)
      (fun b' hb' => ?_) (Nat.add_zero _)
    exact ih (fun w hw => h w (List.mem_cons_of_mem v hw))
      (fun w hw => hreturns w (List.mem_cons_of_mem v hw)) hb'

theorem declares_forM {a : α → Lower Unit} {l : List α}
    (h : ∀ v ∈ l, Declares rules x outer (a v) (fun _ => []) 0) :
    Declares rules x outer (l.forM a) (fun _ => []) 0 := by
  induction l with
  | nil => exact declares_pure (Nat.le_refl 0)
  | cons v l ih =>
    have hrest := ih fun w hw => h w (List.mem_cons_of_mem v hw)
    exact (h v List.mem_cons_self).last fun _ => hrest

theorem declares_concatM {a : α → Lower (List β)} {l : List α}
    (h : ∀ v ∈ l, Declares rules x outer (a v) (·.flatMap g) 0) :
    Declares rules x outer (concatM a l) (·.flatMap g) 0 := by
  refine (declares_mapM h).last fun parts => declares_pure (Nat.le_of_eq ?_)
  rw [List.flatten_eq_flatMap, List.flatMap_assoc]
  rfl

/-- Results that are collected are returned with the value of the action. -/
theorem declares_collectYields {a : Lower α} (h : Declares rules x outer a f 0) :
    Declares rules x outer (collectYields a) (fun r => f r.1 ++ r.2.flatMap Expr.bodyTypes) 0 := by
  intro s hs
  obtain ⟨added, hdeclared, hcount⟩ := h { s with yields := [] :: s.yields } hs
  refine ⟨added, ⟨hdeclared.package, hdeclared.types, hdeclared.enclosed, hdeclared.lawful,
    hdeclared.numbered⟩, ?_⟩
  rw [collectYields_run]
  dsimp only
  generalize a outer { s with yields := [] :: s.yields } = result at hcount
  obtain ⟨v, package, types, anonymous, yields⟩ := result
  simp only [Lowered.bodyTypes, List.flatMap_cons, List.flatMap_nil, List.nil_append,
    List.count_append] at hcount ⊢
  cases yields with
  | nil => simpa using hcount
  | cons found rest =>
    simp only [List.flatMap_cons, List.count_append, List.head?_cons, Option.getD_some,
      List.tail_cons] at hcount ⊢
    omega

theorem declares_yieldValue (e : Expr) :
    Declares rules x outer (yieldValue e) (·.flatMap Stmt.bodyTypes) (e.bodyTypes.count x) := by
  rintro ⟨package, types, anonymous, yields⟩ hpackage
  cases yields with
  | nil =>
    have hrun : yieldValue e outer ⟨package, types, anonymous, []⟩ =
        ([.expr e], ⟨package, types, anonymous, []⟩) := rfl
    rw [hrun]
    refine ⟨[], .of_same hpackage rfl rfl, ?_⟩
    simp only [List.flatMap_singleton, Stmt.bodyTypes]
    omega
  | cons found rest =>
    have hrun : yieldValue e outer ⟨package, types, anonymous, found :: rest⟩ =
        ([], ⟨package, types, anonymous, (found ++ [e]) :: rest⟩) := rfl
    rw [hrun]
    refine ⟨[], .of_same hpackage rfl rfl, ?_⟩
    simp only [Lowered.bodyTypes, List.flatMap_cons, List.flatMap_append, List.flatMap_nil,
      List.append_nil, List.count_append, List.count_nil]
    omega

end Lower

end JavaCallGraph
