import JavaCallGraph.Proofs.ExpressionCalls

/-!
# Calls that lowering keeps

Every call of a file without syntax errors is lowered to exactly one call of the compilation unit,
or stands inside a child that lowering passes over. What holds of expressions is carried on to
statements, to the members of a type, to records and to whole files.
-/

namespace JavaCallGraph

namespace Lower

open JavaCallGraph.Tree

variable {x : Call} {q : Prop} {t c : Marked} {ts cs : List Marked} {o : Option Marked}

/-! ### Statements -/

/-- The initial value is all the code of a declarator. -/
theorem accounts_initialValue (h : Counted x q t) (hkind : t.kind = .variableDeclarator) :
    Accounts x ((t.child? .value).mapM (·.mark.expr)) (fun r => (r.map Expr.calls).getD [])
      (t.tally x) q := by
  have hslots : t.kind.slots = some [.value] := by rw [hkind]; rfl
  have htally : t.tally x = tallyOf x (t.child? .value) := by
    rw [h.ready.tally_slots hslots (by decide) (by rw [hkind]; rfl)]
    simp
  rw [htally]
  refine Accounts.mono (accounts_mapM_option fun c hc => ?_) h.quiet
  exact (h.ready.counted .value (by decide) c hc).expr
    (h.ready.operand hslots .value (by decide) (by decide) (by decide) c hc)

theorem accounts_localVar (h : Counted x q t) (hkind : t.kind = .variableDeclarator)
    (type : TypeRef) : Accounts x (localVar type t) Stmt.calls (t.tally x) q := by
  refine (accounts_initialValue h hkind).last fun init => accounts_pure ?_
  cases init with
  | none => rfl
  | some init => rfl

/-- The declarators are all the code of a declaration of variables. -/
theorem Ready.sum_declarators (h : Ready x t) (hkind : t.kind.declaresVariables) :
    ((labelled .declarator t.children).map (tally x)).sum = t.tally x := by
  rw [(h.of_open (Kind.isOpen_of_declaresVariables hkind)).1]
  refine sum_filter fun c hc => ?_
  have hdeclarator := h.grammatical.declarators hkind c hc
  split at hdeclarator
  · next hlabel => exact .inl (by simpa using hlabel)
  · exact .inr (tally_eq_zero hdeclarator)

theorem Ready.declarator (h : Ready x t) (hkind : t.kind.declaresVariables) :
    ∀ c ∈ labelled .declarator t.children,
      Counted x (t.yieldsOut = false) c ∧ c.kind = .variableDeclarator := by
  intro c hc
  obtain ⟨hmem, hlabel⟩ := List.mem_filter.mp hc
  have hdeclarator := h.grammatical.declarators hkind c hmem
  rw [if_pos (by simpa using hlabel)] at hdeclarator
  exact ⟨(h.of_open (Kind.isOpen_of_declaresVariables hkind)).2 c hmem, hdeclarator⟩

theorem Ready.accounts_resource (h : Ready x t) (hkind : t.kind = .resource) :
    Accounts x (resource t.children) (·.flatMap Stmt.calls) (t.tally x) (t.yieldsOut = false) := by
  obtain ⟨htally, hcs⟩ := h.of_open (by rw [hkind]; rfl)
  have hexpr := h.grammatical.exprs (by rw [hkind]; rfl)
  rw [htally]
  unfold resource
  split
  · next name hname =>
    have hslotted := h.grammatical.resource hkind
      (Option.isSome_iff_exists.mpr ⟨name, hname⟩)
    rw [hslotted.sum_eq (by decide) fun _ _ => tally_eq_zero]
    simp only [List.map_cons, List.map_nil, List.sum_cons, List.sum_nil]
    have hvalue : Accounts x ((first? .value t.children).mapM (·.mark.expr))
        (fun r => (r.map Expr.calls).getD []) (tallyOf x (first? .value t.children))
        (t.yieldsOut = false) :=
      accounts_mapM_option fun c hc => (hcs c (mem_first? hc)).expr (hexpr c (mem_first? hc))
    refine hvalue.last fun init => accounts_pure ?_
    cases init with
    | none => rfl
    | some init => simp
  · exact (accounts_exprs_named hcs hexpr).last fun es => accounts_pure (by simp)

theorem Ready.accounts_forEach (h : Ready x t) (hkind : t.kind = .enhancedForStatement) :
    Accounts x (forEach t.children) (·.flatMap Stmt.calls) (t.tally x) (t.yieldsOut = false) := by
  have hslots : t.kind.slots = some [.value, .body] := by rw [hkind]; rfl
  obtain ⟨-, hcs⟩ := h.of_open (by rw [hkind]; rfl)
  have hiterable := h.accounts_operand hslots .value (by decide) (by decide) (by decide)
  rw [h.tally_slots hslots (by decide) (by rw [hkind]; rfl)]
  simp only [List.map_cons, List.map_nil, List.sum_cons, List.sum_nil]
  refine hiterable.bind (tallyOf x (t.child? .body)) (fun iterable => ?_) rfl
  cases hbody : t.child? .body with
  | none =>
    rw [show first? .body t.children = none from hbody]
    exact accounts_pure (by simp [tallyOf])
  | some body =>
    rw [show first? .body t.children = some body from hbody]
    have hpart : body.kind.isPart = false := by
      simpa [hkind, Kind.admits] using h.admitted hslots .body (by decide) body hbody
    refine ((hcs body (mem_first? hbody)).stmts hpart).bind (iterable.calls.count x)
      (fun ss => accounts_pure ?_) ?_
    · simp [Nat.add_comm]
    · simp [tallyOf, Nat.add_comm]

theorem Ready.accounts_constructorCall (h : Ready x t)
    (hkind : t.kind = .explicitConstructorInvocation) (target : CtorTarget) :
    Accounts x (do
      let args ← arguments (t.child? .arguments)
      return [Stmt.ctorCall target args (t.token.row + 1)]) (·.flatMap Stmt.calls) (t.tally x)
      (t.yieldsOut = false) := by
  have hslots : t.kind.slots = some [.object, .arguments] := by rw [hkind]; rfl
  have hobject := share_child (x := x) (t := t) .object true fun c hc => by
    rw [Token.passes, show t.token.kind = _ from hkind, hc]
    rfl
  have harguments := share_child (x := x) (t := t) .arguments false fun c hc => by
    rw [Token.passes, show t.token.kind = _ from hkind, hc]
    rfl
  have htally : t.tally x = tallyOf x (t.child? .arguments) := by
    rw [tally_eq, ownCalls_eq_nil (by simp [hkind]), h.sum_slots hslots (by decide)]
    simp [hobject, harguments]
  rw [htally]
  refine (h.accounts_argumentSlot hslots (by decide)).last fun args => accounts_pure ?_
  simp

theorem Ready.accounts_stmtsMeaning (h : Ready x t) (hpart : t.kind.isPart = false)
    {declare : Option String → Lower Unit}
    (hdeclare : t.kind.isTypeDeclaration → ∀ enclosing,
      Accounts x (declare enclosing) (fun _ => []) (t.tally x) (t.yieldsOut = false)) :
    Accounts x (stmtsMeaning t.token t.children declare) (·.flatMap Stmt.calls) (t.tally x)
      (t.yieldsOut = false) := by
  have hleaf (hleaf : t.kind.isLeaf) {ss : List Stmt} (hss : ss.flatMap Stmt.calls = []) :
      Accounts x (pure ss) (·.flatMap Stmt.calls) (t.tally x) (t.yieldsOut = false) :=
    accounts_pure (by
      rw [hss, tally_eq_zero (h.grammatical.leaf (.inl hleaf)), List.count_nil])
  unfold stmtsMeaning
  split
  · next hkind =>
    have hvariables : t.kind.declaresVariables := by rw [Tree.kind, hkind]; rfl
    rw [← h.sum_declarators hvariables]
    refine accounts_mapM fun c hc => ?_
    obtain ⟨hcounted, hkind⟩ := h.declarator hvariables c hc
    exact accounts_localVar hcounted hkind _
  · next hkind =>
    have hkind : t.kind = .expressionStatement := hkind
    obtain ⟨htally, hcs⟩ := h.of_open (by rw [hkind]; rfl)
    rw [htally]
    have hexpr := h.grammatical.exprs (by rw [hkind]; rfl)
    exact (accounts_exprs_named hcs hexpr).last fun es => accounts_pure (by simp)
  · next hkind =>
    have hkind : t.kind.holdsExpr := by rw [Tree.kind, hkind]; rfl
    rw [h.tally_holdsExpr hkind]
    refine (accounts_mapM_option (h.accounts_head hkind)).last fun e => accounts_pure ?_
    cases e with
    | none => rfl
    | some e => simp
  · next hkind =>
    have hholds : t.kind.holdsExpr := by rw [Tree.kind, hkind]; rfl
    have hloud : t.yieldsOut = false → False := by simp [yieldsOut_of_yield hkind]
    rw [h.tally_holdsExpr hholds]
    split
    · next value hvalue =>
      rw [show t.namedChildren.head? = some value from hvalue]
      refine (h.accounts_head hholds value hvalue).last fun e => ?_
      exact (accounts_yieldValue e).mono hloud
    · next hnone =>
      rw [show t.namedChildren.head? = none from hnone]
      exact accounts_pure rfl
  · next hkind => exact h.accounts_constructorCall hkind _
  · next hkind => exact h.accounts_forEach hkind
  · next hkind => exact hleaf (show t.token.kind.isLeaf by rw [hkind]; rfl) rfl
  · next hkind => exact h.accounts_resource hkind
  · next hkind => exact hleaf (show t.token.kind.isLeaf by rw [hkind]; rfl) rfl
  · next hkind => exact hleaf (show t.token.kind.isLeaf by rw [hkind]; rfl) rfl
  · next hkind => exact hleaf (show t.token.kind.isLeaf by rw [hkind]; rfl) rfl
  · next hkind => exact hleaf (show t.token.kind.isLeaf by rw [hkind]; rfl) rfl
  · next hkind =>
    have hkind : t.kind = .labeledStatement := hkind
    obtain ⟨htally, hcs⟩ := h.of_open (by rw [hkind]; rfl)
    have hparts := h.grammatical.parts (by rw [hkind]; rfl)
    rw [htally, ← sum_named hcs]
    refine (accounts_concatM fun c hc => ?_).of_eq (sum_filter fun c hc => ?_)
    · have hmem := (List.mem_filter.mp hc).1
      exact (counted_named hcs c hmem).stmts (hparts c (List.mem_filter.mp hmem).1)
    · by_cases hidentifier : c.kind = .identifier
      · exact .inr ((counted_named hcs c hc).tally_leaf (.inl (by rw [hidentifier]; rfl)))
      · exact .inl (by simpa using hidentifier)
  · split
    · next htype =>
      refine accounts_read.skip fun owner => ?_
      exact (hdeclare htype owner).next fun _ => accounts_pure rfl
    · next htype =>
      split
      · next hexpr =>
        refine (h.accounts_exprMeaning (.inl hexpr)).last fun e => accounts_pure ?_
        simp
      · next hexpr =>
        have hhides : t.kind.hides = false := by
          unfold Kind.hides
          split <;> first | contradiction | simp_all [Tree.kind, Kind.isPart, Kind.isExpression]
        have hyields : t.kind.collectsYields = false := by
          unfold Kind.collectsYields
          split <;> simp_all [Tree.kind, Kind.isExpression]
        have hparts : t.kind.holdsParts = false := by
          unfold Kind.holdsParts
          split <;> simp_all [Tree.kind, Kind.isExpression, Kind.isTypeDeclaration]
        obtain ⟨htally, hcs⟩ := h.of_open (by rw [Kind.isOpen, hhides, hyields]; rfl)
        rw [htally]
        exact accounts_concat_stmts hcs (h.grammatical.parts hparts)

/-! ### Declarations -/

theorem accounts_fieldDecl (h : Counted x q t) (hkind : t.kind = .variableDeclarator)
    (type : TypeRef) (isStatic : Bool) :
    Accounts x (fieldDecl type isStatic t) FieldDecl.calls (t.tally x) q :=
  (accounts_initialValue h hkind).last fun _ => accounts_pure rfl

section MethodBody

variable (h : Counted x q t) (hkind : t.kind = .methodDeclaration ∨
  t.kind = .constructorDeclaration ∨ t.kind = .compactConstructorDeclaration)

include h hkind

/-- The body is all the code of a method or a constructor. -/
theorem tally_methodBody : t.tally x = tallyOf x (t.child? .body) := by
  have hslots : t.kind.slots = some [.body] := by rcases hkind with h | h | h <;> rw [h] <;> rfl
  have hopen : t.kind.hides = false := by rcases hkind with h | h | h <;> rw [h] <;> rfl
  rw [h.ready.tally_slots hslots (by decide) hopen]
  simp

theorem accounts_methodBlock : ∀ body ∈ t.child? .body,
    Accounts x (block body) (·.flatMap Stmt.calls) (body.tally x) q := by
  intro body hbody
  have hslots : t.kind.slots = some [.body] := by rcases hkind with h | h | h <;> rw [h] <;> rfl
  obtain ⟨-, hcs⟩ := h.of_open (by rcases hkind with h | h | h <;> rw [h] <;> rfl)
  have hadmits := h.ready.admitted hslots .body (by decide) body hbody
  refine accounts_block (hcs body (mem_first? hbody)) (.inr ?_)
  rcases hkind with h | h | h <;> simpa [h, Kind.admits, Kind.isTypeDeclaration] using hadmits

theorem accounts_methodBody : Accounts x ((t.child? .body).mapM block)
    (fun r => (r.map fun ss => ss.flatMap Stmt.calls).getD []) (t.tally x) q := by
  rw [tally_methodBody h hkind]
  exact accounts_mapM_option (accounts_methodBlock h hkind)

end MethodBody

theorem accounts_methodDecl (h : Counted x q t) (hkind : t.kind = .methodDeclaration)
    (inInterface : Bool) :
    Accounts x (methodDecl inInterface t) MethodDecl.calls (t.tally x) q := by
  refine (accounts_methodBody h (.inl hkind)).last fun body => accounts_pure ?_
  cases body with
  | none => rfl
  | some body => rfl

theorem accounts_constructorDecl (h : Counted x q t) (hkind : t.kind = .constructorDeclaration)
    (simpleName : String) :
    Accounts x (constructorDecl simpleName t) MethodDecl.calls (t.tally x) q := by
  refine (accounts_methodBody h (.inr (.inl hkind))).last fun body => accounts_pure ?_
  cases body with
  | none => rfl
  | some body => rfl

/-- The arguments of a constant count, and its body is passed over. -/
theorem accounts_enumConstant (h : Counted x q t) (hkind : t.kind = .enumConstant)
    (decl : TypeDecl) : Accounts x (enumConstant decl t) FieldDecl.calls (t.tally x) q := by
  have hslots : t.kind.slots = some [.arguments, .body] := by rw [hkind]; rfl
  have harguments := share_child (x := x) (t := t) .arguments false fun c hc => by
    rw [Token.passes, show t.token.kind = _ from hkind, hc]
    rfl
  have hbody := share_child (x := x) (t := t) .body true fun c hc => by
    rw [Token.passes, show t.token.kind = _ from hkind, hc]
    rfl
  have htally : t.tally x = tallyOf x (t.child? .arguments) := by
    rw [tally_eq, ownCalls_eq_nil (by simp [hkind]), h.ready.sum_slots hslots (by decide)]
    simp [hbody, harguments]
  rw [htally]
  refine ((h.ready.accounts_argumentSlot hslots (by decide)).mono h.quiet).last fun args => ?_
  exact accounts_pure (by simp [FieldDecl.calls])

theorem accounts_staticBlock (h : Counted x q t) (hkind : t.kind = .staticInitializer) :
    Accounts x (staticBlock t) (·.flatMap Stmt.calls) (t.tally x) q := by
  obtain ⟨hblocks, honce⟩ := h.ready.grammatical.initializer hkind
  obtain ⟨hsum, hcs⟩ := h.of_open (by rw [hkind]; rfl)
  have htally : t.tally x = tallyOf x (t.namedChildren.find? (·.kind == .block)) := by
    rw [hsum, namedChildren, ← sum_find? hcs honce, sum_filter]
    exact fun c hc => (hblocks c hc).imp (by simp [·]) tally_eq_zero
  rw [htally]
  unfold staticBlock
  split
  · next b hb =>
    rw [hb]
    have hmem := (List.mem_filter.mp (List.mem_of_find?_eq_some hb)).1
    have hblock : b.kind = .block := by simpa using List.find?_some hb
    exact accounts_block (hcs b hmem) (.inr (by rw [hblock]; rfl))
  · next hb =>
    rw [hb]
    exact accounts_pure rfl

/-- What a node adds to the type in whose body it stands. -/
theorem accounts_member (h : Counted x q t)
    (hkind : t.kind.isMember ∨ t.kind = .compactConstructorDeclaration ∨ t.calls = [])
    (hcompact : ∀ c ∈ t.children, c.kind ≠ .compactConstructorDeclaration) (decl : TypeDecl) :
    Accounts x (member decl t) TypeDecl.calls (decl.calls.count x +
      if t.kind != .compactConstructorDeclaration then t.tally x else 0) q := by
  have hfields (hvariables : t.kind.declaresVariables) (type : TypeRef) (isStatic : Bool) :
      Accounts x (do
        let fields ← (labelled .declarator t.children).mapM (fieldDecl type isStatic)
        return { decl with fields := decl.fields ++ fields }) TypeDecl.calls
        (decl.calls.count x + t.tally x) q := by
    have hmap : Accounts x ((labelled .declarator t.children).mapM (fieldDecl type isStatic))
        (·.flatMap FieldDecl.calls) (t.tally x) q := by
      rw [← h.ready.sum_declarators hvariables]
      refine accounts_mapM fun c hc => ?_
      obtain ⟨hcounted, hkind⟩ := h.ready.declarator hvariables c hc
      exact (accounts_fieldDecl hcounted hkind type isStatic).mono h.quiet
    refine hmap.bind (decl.calls.count x) (fun fields => accounts_pure ?_) (Nat.add_comm _ _)
    rw [TypeDecl.count_addFields, Nat.add_comm]
  unfold member
  split
  · next hkind =>
    rw [if_pos (by simp [hkind])]
    exact hfields (by rw [hkind]; rfl) _ _
  · next hkind =>
    rw [if_pos (by simp [hkind])]
    exact hfields (by rw [hkind]; rfl) _ _
  · next hkind =>
    rw [if_pos (by simp [hkind])]
    refine (accounts_methodDecl h hkind _).bind (decl.calls.count x) (fun m => accounts_pure ?_)
      (Nat.add_comm _ _)
    rw [TypeDecl.count_addMethod, Nat.add_comm]
  · next hkind =>
    rw [if_pos (by simp [hkind])]
    refine (accounts_constructorDecl h hkind _).bind (decl.calls.count x)
      (fun m => accounts_pure ?_) (Nat.add_comm _ _)
    rw [TypeDecl.count_addMethod, Nat.add_comm]
  · next hkind =>
    rw [if_pos (by simp [hkind])]
    refine (accounts_block h (.inr (by rw [hkind]; rfl))).bind (decl.calls.count x)
      (fun body => accounts_pure ?_) (Nat.add_comm _ _)
    rw [TypeDecl.count_addInitializer, Nat.add_comm]
    rfl
  · next hkind =>
    rw [if_pos (by simp [hkind])]
    refine (accounts_staticBlock h hkind).bind (decl.calls.count x) (fun body => accounts_pure ?_)
      (Nat.add_comm _ _)
    rw [TypeDecl.count_addInitializer, Nat.add_comm]
    rfl
  · next hkind =>
    rw [if_pos (by simp [hkind])]
    refine (accounts_enumConstant h hkind decl).bind (decl.calls.count x)
      (fun f => accounts_pure ?_) (Nat.add_comm _ _)
    rw [TypeDecl.count_addFields, Nat.add_comm, List.flatMap_singleton]
  · next hkind =>
    rw [if_pos (by simp [hkind]), ← h.ready.memberTally_eq (by rw [hkind]; rfl) hcompact]
    exact h.members (.inr hkind) decl
  · dsimp only
    split
    · next htype =>
      have hne : t.kind ≠ .compactConstructorDeclaration := by
        intro heq
        rw [heq] at htype
        cases htype
      rw [if_pos (by simpa using hne)]
      rw [Nat.add_comm]
      exact (h.declare htype _).next fun _ => accounts_pure rfl
    · next htype =>
      have hmember : ¬t.kind.isMember := by
        unfold Kind.isMember
        split <;> first | contradiction | exact htype
      refine accounts_pure ?_
      rcases hkind.resolve_left hmember with hcompact | hsilent
      · rw [if_neg (by simp [hcompact]), Nat.add_zero]
      · rw [tally_eq_zero hsilent, ite_self, Nat.add_zero]

theorem Ready.accounts_membersMeaning (h : Ready x t)
    (hkind : t.kind.isTypeBody ∨ t.kind = .enumBodyDeclarations) (decl : TypeDecl) :
    Accounts x (membersMeaning t.children decl) TypeDecl.calls
      (decl.calls.count x + memberTally x t) (t.yieldsOut = false) := by
  have hrecord : t.kind ≠ .recordDeclaration := by
    rcases hkind.imp_left Kind.eq_of_isTypeBody with (h | h | h | h) | h <;> simp [h]
  obtain ⟨-, hcs⟩ := h.of_open (hkind.elim Kind.isOpen_of_isTypeBody (by rw [·]; rfl))
  have hsum : ((named t.children).map fun c =>
      if c.kind != .compactConstructorDeclaration then c.tally x else 0).sum =
      memberTally x t := by
    rw [sum_ite, sum_filter_named hcs, memberTally]
  rw [← hsum]
  refine accounts_foldlM (fun c hc d => ?_) decl
  have hmem := (List.mem_filter.mp hc).1
  exact accounts_member (hcs c hmem) (h.grammatical.members hkind c hmem)
    (h.legal.compact hrecord c hmem) d

/-! ### Records -/

theorem count_addComponent (decl : TypeDecl) (component : Param) :
    (addComponent decl component).calls.count x = decl.calls.count x := by
  have haccessor : (accessor decl component).calls = [] := rfl
  unfold addComponent
  dsimp only
  split
  · simp [TypeDecl.calls, FieldDecl.calls]
  · simp [TypeDecl.calls, FieldDecl.calls, haccessor]

theorem count_addComponents (components : List Param) (decl : TypeDecl) :
    (components.foldl addComponent decl).calls.count x = decl.calls.count x := by
  induction components generalizing decl with
  | nil => rfl
  | cons component components ih => rw [List.foldl_cons, ih, count_addComponent]

theorem calls_canonical (decl : TypeDecl) (components : List Param) (compact : List Stmt) :
    (canonical decl components compact).calls = compact.flatMap Stmt.calls := by
  simp [canonical, MethodDecl.calls, List.flatMap_map, componentAccess]

/-- Components bring accessors, and no constructors. -/
theorem methods_addComponents (components : List Param) (decl : TypeDecl) :
    ∀ m ∈ (components.foldl addComponent decl).methods, m ∈ decl.methods ∨ m.kind = .method := by
  induction components generalizing decl with
  | nil => exact fun m hm => .inl hm
  | cons component components ih =>
    intro m hm
    rcases ih _ m hm with hm | hm
    · unfold addComponent at hm
      dsimp only at hm
      split at hm
      · exact .inl hm
      · rcases List.mem_append.mp hm with hm | hm
        · exact .inl hm
        · rw [List.mem_singleton.mp hm]
          exact .inr rfl
    · exact .inr hm

def ConstructorsAmong (ts : List Marked) (d : TypeDecl) : Prop :=
  ∀ m ∈ d.methods, m.kind = .constructor →
    ∃ c ∈ ts, c.kind = .constructorDeclaration ∧ m.params = params (c.child? .parameters)

theorem ConstructorsAmong.addMethod {d : TypeDecl} (h : ConstructorsAmong ts d) {m : MethodDecl}
    (hm : m.kind = .constructor →
      ∃ c ∈ ts, c.kind = .constructorDeclaration ∧ m.params = params (c.child? .parameters)) :
    ConstructorsAmong ts { d with methods := d.methods ++ [m] } := by
  intro n hn
  rcases List.mem_append.mp hn with hn | hn
  · exact h n hn
  · rw [List.mem_singleton.mp hn]
    exact hm

theorem returns_member (ht : t ∈ ts) (hkind : t.kind ≠ .enumBodyDeclarations) {decl : TypeDecl}
    (h : ConstructorsAmong ts decl) : Returns (member decl t) (ConstructorsAmong ts) := by
  have hmethod (inInterface : Bool) : Returns (methodDecl inInterface t) (·.kind = .method) :=
    (returns_any _).bind fun _ _ => returns_pure rfl
  have hconstructor (simpleName : String) :
      Returns (constructorDecl simpleName t) (·.params = params (t.child? .parameters)) :=
    (returns_any _).bind fun _ _ => returns_pure rfl
  unfold member
  split
  · exact (returns_any _).bind fun _ _ => returns_pure h
  · exact (returns_any _).bind fun _ _ => returns_pure h
  · refine (hmethod _).bind fun m hm => returns_pure (h.addMethod fun hkind => ?_)
    rw [hm] at hkind
    cases hkind
  · next hkind =>
    exact (hconstructor _).bind fun m hm =>
      returns_pure (h.addMethod fun _ => ⟨t, ht, hkind, hm⟩)
  · exact (returns_any _).bind fun _ _ => returns_pure h
  · exact (returns_any _).bind fun _ _ => returns_pure h
  · exact (returns_any _).bind fun _ _ => returns_pure h
  · next hdeclarations => exact absurd hdeclarations hkind
  · dsimp only
    split
    · exact (returns_any _).bind fun _ _ => returns_pure h
    · exact returns_pure h

theorem compactBody_of_ne (h : t.kind ≠ .compactConstructorDeclaration) (found : List Stmt) :
    compactBody found t = pure found := by
  unfold compactBody
  split
  · contradiction
  · rfl

theorem foldlM_compactBody_of_ne (h : ∀ c ∈ cs, c.kind ≠ .compactConstructorDeclaration)
    (found : List Stmt) : cs.foldlM compactBody found = pure found := by
  induction cs with
  | nil => rfl
  | cons c cs ih =>
    rw [List.foldlM_cons, compactBody_of_ne (h c List.mem_cons_self), pure_bind]
    exact ih fun d hd => h d (List.mem_cons_of_mem c hd)

theorem accounts_compactBody (h : Counted x q t)
    (hkind : t.kind = .compactConstructorDeclaration) :
    Accounts x (compactBody [] t) (·.flatMap Stmt.calls) (t.tally x) q := by
  have hcompact : t.kind = .methodDeclaration ∨ t.kind = .constructorDeclaration ∨
      t.kind = .compactConstructorDeclaration := .inr (.inr hkind)
  rw [tally_methodBody h hcompact]
  unfold compactBody
  split
  · next body _ hbody =>
    rw [hbody]
    exact accounts_methodBlock h hcompact body hbody
  · next hnone =>
    cases hbody : t.child? .body with
    | none => exact accounts_pure rfl
    | some body => exact (hnone body hkind hbody).elim

theorem accounts_compactBodies (h : ∀ c ∈ cs, Counted x q c)
    (honce : (cs.filter (·.kind == .compactConstructorDeclaration)).length ≤ 1) :
    Accounts x (cs.foldlM compactBody []) (·.flatMap Stmt.calls)
      ((cs.filter (·.kind == .compactConstructorDeclaration)).map (tally x)).sum q := by
  induction cs with
  | nil => exact accounts_pure rfl
  | cons c cs ih =>
    have hc := h c List.mem_cons_self
    have hcs : ∀ d ∈ cs, Counted x q d := fun d hd => h d (List.mem_cons_of_mem c hd)
    rw [List.foldlM_cons]
    by_cases hkind : c.kind = .compactConstructorDeclaration
    · rw [List.filter_cons_of_pos (by simpa using hkind)] at honce ⊢
      have hnone : cs.filter (·.kind == .compactConstructorDeclaration) = [] := by
        simpa using honce
      have hrest : ∀ d ∈ cs, d.kind ≠ .compactConstructorDeclaration := fun d hd => by
        simpa using List.filter_eq_nil_iff.mp hnone d hd
      rw [hnone]
      refine (accounts_compactBody hc hkind).last fun found => ?_
      rw [foldlM_compactBody_of_ne hrest]
      exact accounts_pure rfl
    · rw [List.filter_cons_of_neg (by simpa using hkind)] at honce ⊢
      rw [compactBody_of_ne hkind, pure_bind]
      exact ih hcs honce

theorem isCanonical_eq (components : List Param) (m : MethodDecl) :
    isCanonical components m = (m.kind == .constructor && sameTypes m.params components) :=
  Bool.and_assoc ..

/-- A record with a compact constructor declares no other canonical one. -/
theorem any_isCanonical_eq_false {components : List Param} {d : TypeDecl}
    (hconstructors : ConstructorsAmong ts d)
    (h : ∀ c ∈ ts, c.kind = .constructorDeclaration →
      sameTypes (params (c.child? .parameters)) components = false) :
    (components.foldl addComponent d).methods.any (isCanonical components) = false := by
  refine List.any_eq_false.mpr fun m hm => ?_
  rw [isCanonical_eq, Bool.and_eq_true, beq_iff_eq]
  rintro ⟨hkind, hparams⟩
  rcases methods_addComponents components d m hm with hm | hm
  · obtain ⟨c, hc, hdeclared, heq⟩ := hconstructors m hm hkind
    rw [heq, h c hc hdeclared] at hparams
    cases hparams
  · rw [hm] at hkind
    cases hkind

def completed (components : List Param) (compact : List Stmt) (decl : TypeDecl) : TypeDecl :=
  let d := components.foldl addComponent decl
  if d.methods.any (isCanonical components) then d
  else { d with methods := d.methods ++ [canonical d components compact] }

theorem recordMembers_eq (components : List Param) (body : Marked) (decl : TypeDecl) :
    recordMembers components (some body) decl = (do
      let compact ← body.namedChildren.foldlM compactBody []
      let d ← body.mark.members decl
      return completed components compact d) := by
  refine bind_congr fun compact => bind_congr fun d => ?_
  unfold completed
  dsimp only
  split
  · rfl
  · rfl

theorem count_completed {components : List Param} {compact : List Stmt} {d : TypeDecl}
    (h : (components.foldl addComponent d).methods.any (isCanonical components) →
      compact.flatMap Stmt.calls = []) : (completed components compact d).calls.count x =
        (compact.flatMap Stmt.calls).count x + d.calls.count x := by
  unfold completed
  dsimp only
  split
  · next hany => rw [count_addComponents, h hany, List.count_nil, Nat.zero_add]
  · rw [TypeDecl.count_addMethod, count_addComponents, calls_canonical, Nat.add_comm]

/-- The members of a record hold the calls of its body, those of a compact constructor in the
constructor that sets the components. -/
theorem accounts_recordMembers {components : List Param} {body : Marked} (h : Counted x q body)
    (hbody : body.kind = .classBody)
    (honce : (body.children.filter (·.kind == .compactConstructorDeclaration)).length ≤ 1)
    (hcanonical : body.hasChild .compactConstructorDeclaration → ∀ c ∈ body.children,
      c.kind = .constructorDeclaration →
        sameTypes (params (c.child? .parameters)) components = false)
    {decl : TypeDecl} (hdecl : decl.methods = []) :
    Accounts x (recordMembers components (some body) decl) TypeDecl.calls
      (decl.calls.count x + body.tally x) q := by
  have hopen : body.kind.isOpen := by rw [hbody]; rfl
  obtain ⟨hsum, hcs⟩ := h.of_open hopen
  have hmembers := h.members (.inl (by rw [hbody]; rfl)) decl
  rw [recordMembers_eq]
  cases hcompact : body.hasChild .compactConstructorDeclaration with
  | false =>
    have hnone : ∀ c ∈ body.children, c.kind ≠ .compactConstructorDeclaration := fun c hc => by
      simpa using List.any_eq_false.mp hcompact c hc
    have hfold : body.namedChildren.foldlM compactBody [] = pure [] :=
      foldlM_compactBody_of_ne (fun c hc => hnone c (List.mem_filter.mp hc).1) []
    rw [hfold, pure_bind, ← h.ready.memberTally_eq hopen hnone]
    refine hmembers.last fun d => accounts_pure ?_
    rw [count_completed fun _ => rfl]
    exact Nat.add_comm _ _
  | true =>
    have hparts := h.ready.grammatical.parts (by rw [hbody]; rfl)
    have hconstructors : Returns (body.mark.members decl)
        (ConstructorsAmong body.namedChildren) := by
      rw [h.node.made]
      refine returns_foldlM (fun c hc d hd => returns_member hc ?_ hd) ?_
      · rintro hdeclarations
        have hpart := hparts c (List.mem_filter.mp hc).1
        rw [hdeclarations] at hpart
        cases hpart
      · intro m hm
        rw [hdecl] at hm
        cases hm
    set compacts := body.children.filter (·.kind == .compactConstructorDeclaration)
    have hcompacts : Accounts x (body.namedChildren.foldlM compactBody []) (·.flatMap Stmt.calls)
        (compacts.map (tally x)).sum q := by
      rw [← sum_filter_named hcs]
      refine accounts_compactBodies (counted_named hcs) ?_
      rw [namedChildren, named, List.filter_comm]
      exact (List.length_filter_le ..).trans honce
    have htally : (compacts.map (tally x)).sum + memberTally x body = body.tally x := by
      rw [hsum]
      exact sum_filter_add_sum_filter_not ..
    refine hcompacts.bind (decl.calls.count x + memberTally x body) (fun compact => ?_) (by omega)
    refine hmembers.bind_of_returns ((compact.flatMap Stmt.calls).count x) hconstructors
      (fun d hd => accounts_pure ?_) (Nat.add_comm _ _)
    rw [count_completed, Nat.add_comm]
    intro hany
    rw [any_isCanonical_eq_false hd fun c hc => hcanonical hcompact c (List.mem_filter.mp hc).1]
      at hany
    cases hany

/-! ### Types and files -/

theorem recordMembers_none (components : List Param) (decl : TypeDecl) :
    recordMembers components none decl = pure (completed components [] decl) := by
  unfold completed
  dsimp only
  split
  · next hany => exact if_pos hany
  · next hany => exact if_neg hany

section Bodies

variable (h : Ready x t) {decl : TypeDecl}

include h

theorem Ready.accounts_recordBody (hkind : t.kind = .recordDeclaration)
    (hdecl : decl.methods = []) :
    Accounts x (recordMembers (params (t.child? .parameters)) (t.child? .body) decl)
      TypeDecl.calls (decl.calls.count x + tallyOf x (t.child? .body)) (t.yieldsOut = false) := by
  have hslots : t.kind.slots = some [.body] := by rw [hkind]; rfl
  cases hbody : t.child? .body with
  | none =>
    rw [recordMembers_none]
    refine accounts_pure ?_
    rw [count_completed fun _ => rfl]
    exact Nat.add_comm _ _
  | some body =>
    have hclass : body.kind = .classBody := by
      simpa [hkind, Kind.admits] using h.admitted hslots .body (by decide) body hbody
    obtain ⟨-, hcs⟩ := h.of_open (by rw [hkind]; rfl)
    exact accounts_recordMembers (hcs body (mem_first? hbody)) hclass
      (h.legal.compactOnce hkind body hbody) (h.legal.canonical hkind body hbody) hdecl

theorem Ready.accounts_typeBody (htype : t.kind.isTypeDeclaration)
    (hkind : t.kind ≠ .recordDeclaration) {body : Marked} (hbody : t.child? .body = some body) :
    Accounts x (body.mark.members decl) TypeDecl.calls (decl.calls.count x + body.tally x)
      (t.yieldsOut = false) := by
  have hmem : body ∈ t.children := mem_first? hbody
  have hadmits := h.admitted (Kind.slots_of_isTypeDeclaration htype) .body (by decide) body hbody
  have hmembers : body.kind.isTypeBody := by
    rcases Kind.eq_of_isTypeDeclaration htype with h | h | h | h | h
    all_goals first
      | contradiction
      | simpa [h, Kind.admits, Kind.isTypeDeclaration] using hadmits
  have hcounted := (h.of_open (Kind.isOpen_of_isTypeDeclaration htype)).2 body hmem
  rw [← hcounted.ready.memberTally_eq (Kind.isOpen_of_isTypeBody hmembers)
    (h.legal.compact hkind body hmem)]
  exact hcounted.members (.inl hmembers) decl

theorem Ready.accounts_declareMeaning (htype : t.kind.isTypeDeclaration)
    (enclosing : Option String) :
    Accounts x (declareMeaning t.token t.children enclosing) (fun _ => []) (t.tally x)
      (t.yieldsOut = false) := by
  have hhides : t.kind.hides = false := by
    rcases Kind.eq_of_isTypeDeclaration htype with h | h | h | h | h <;> rw [h] <;> rfl
  have htally : t.tally x = 0 + tallyOf x (t.child? .body) := by
    rw [h.tally_slots (Kind.slots_of_isTypeDeclaration htype) (by decide) hhides]
    simp
  refine accounts_get.skip fun s => ?_
  refine Accounts.last (Accounts.inType ?_ _) fun d => accounts_addType d
  rw [htally]
  split
  · next hrecord => exact h.accounts_recordBody (eq_of_beq hrecord) rfl
  · next hrecord =>
    split
    · next body hbody =>
      rw [show t.child? .body = some body from hbody]
      exact h.accounts_typeBody htype (fun heq => hrecord (beq_iff_eq.mpr heq)) hbody
    · next hbody =>
      rw [show t.child? .body = none from hbody]
      exact accounts_pure rfl

/-- The meaning of a node accounts for its calls when the nodes below it do. -/
theorem Ready.nodeAccounts (made : t.mark = meaning t.token t.children) : NodeAccounts x t where
  grammatical := h.grammatical
  legal := h.legal
  made := made
  expr hexpr := by
    rw [made]
    exact h.accounts_exprMeaning hexpr
  stmts hpart := by
    rw [made]
    exact h.accounts_stmtsMeaning hpart h.accounts_declareMeaning
  members hkind decl := by
    rw [made]
    exact h.accounts_membersMeaning hkind decl
  declare htype enclosing := by
    rw [made]
    exact h.accounts_declareMeaning htype enclosing

end Bodies

theorem nodeAccounts_annotate {tree : SyntaxTree}
    (h : tree.Everywhere fun t => t.Grammatical ∧ t.Legal) :
    (tree.annotate meaning).Everywhere (NodeAccounts x) := by
  refine h.annotate fun t ht hbelow => ?_
  have hready : Ready x (t.annotate meaning) :=
    ⟨ht.1.annotate meaning, ht.2.annotate meaning, hbelow⟩
  exact hready.nodeAccounts (by rw [mark_annotate, token_annotate, children_annotate])

theorem accounts_topLevel (h : Counted x q t) :
    Accounts x (topLevel t) (fun _ => [])
      (if t.kind.isTypeDeclaration then t.tally x else 0) q := by
  unfold topLevel
  split
  · next hkind =>
    have hkind : t.kind = .packageDeclaration := by simpa using hkind
    rw [if_neg (by simp [hkind, Kind.isTypeDeclaration])]
    exact accounts_modify fun _ => ⟨rfl, rfl⟩
  · split
    · next htype => exact h.declare htype none
    · exact accounts_pure rfl

/-- Of a whole file, the type declarations count. -/
theorem tally_program (hkind : t.kind = .program) (hcs : ∀ c ∈ t.children, Counted x q c) :
    t.tally x = (t.namedChildren.map fun c =>
      if c.kind.isTypeDeclaration then c.tally x else 0).sum := by
  have hshare : share x t.token t.children =
      fun c => if c.kind.isTypeDeclaration then c.tally x else 0 := by
    funext c
    rw [share, Token.passes, show t.token.kind = _ from hkind]
    cases htype : c.token.kind.isTypeDeclaration <;> simp [Tree.kind, htype]
  rw [tally_eq, ownCalls_eq_nil (by simp [hkind]), hshare, sum_ite, namedChildren, sum_ite,
    sum_filter_named hcs, List.count_nil, Nat.zero_add]

end Lower

namespace CompilationUnit

open JavaCallGraph.Tree JavaCallGraph.Lower

/-- The calls of a unit are those that lowering comes to. -/
theorem calls_perm_enteredCalls {tree : SyntaxTree} (h : tree.IsFile) (path : String)
    (hasErrors : Bool) : (ofTree path hasErrors tree).calls.Perm tree.enteredCalls := by
  refine List.perm_iff_count.mpr fun x => ?_
  have hnodes := (everywhere_iff.mp (nodeAccounts_annotate (x := x) h.nodes)).2
  have hcs : ∀ c ∈ (tree.annotate meaning).children, Counted x False c :=
    fun c hc => .anyhow (hnodes c hc)
  have hitems := accounts_forM (fun c hc => accounts_topLevel (counted_named hcs c hc))
  obtain ⟨hcount, houter, -⟩ := hitems none {}
  have htally := tally_program (by simpa using h.program) hcs
  rw [tally_annotate, tally] at htally
  -- Outside all types no switch is open, so no results are left over.
  have hyields := houter.2.mp rfl
  rw [Lowered.calls, hyields] at hcount
  have hcalls : (ofTree path hasErrors tree).calls =
      (((tree.annotate meaning).namedChildren.forM topLevel : Lower Unit) none
        {}).2.types.flatMap TypeDecl.calls := rfl
  rw [hcalls, htally]
  simpa [Lowered.calls, namedChildren] using hcount

/-! ### Small files with calls -/

def invocation (name : String) (args : List SyntaxTree) : SyntaxTree :=
  phrase .methodInvocation [under .name (word name), argumentList args]

def returning (parts : List SyntaxTree) : SyntaxTree :=
  phrase .returnStatement (symbol "return" :: parts ++ [symbol ";"])

def yielding (parts : List SyntaxTree) : SyntaxTree :=
  phrase .yieldStatement (symbol "yield" :: parts ++ [symbol ";"])

def switchOf (selector : SyntaxTree) (label stmts : List SyntaxTree) : SyntaxTree :=
  phrase .switchExpression [symbol "switch",
    under .condition (parenthesized .parenthesizedExpression [selector]),
    under .body (braced (.other "switch_block")
      [phrase .switchRule [phrase .switchLabel label, symbol "->", braced .block stmts]])]

def otherwise : List SyntaxTree := [symbol "default"]

def fieldOf (type name : SyntaxTree) (value : List SyntaxTree) : SyntaxTree :=
  phrase .fieldDeclaration [under .type type,
    under .declarator (phrase .variableDeclarator (under .name name :: value)), symbol ";"]

/-- A field, a switch that yields, a lambda expression and an anonymous class with calls in them,
and an enum constant with one call in its arguments and one in its body. -/
def nested : SyntaxTree :=
  let inner := braced .classBody [methodOf "m" [] [returning [invocation "e" []]]]
  let lambda := phrase .lambdaExpression
    [under .parameters (parenthesized (.other "formal_parameters") []), symbol "->",
      under .body (invocation "g" [])]
  let constant := phrase .enumConstant [under .name (word "K"), argumentList [invocation "h" []],
    under .body (braced .classBody [methodOf "m" [] [statement (invocation "i" [])]])]
  fileOf [
    classOf "C" [
      fieldOf (typeName "T") (word "x") [symbol "=", under .value (invocation "a" [])],
      methodOf "m" [] [
        statement (switchOf (invocation "b" []) otherwise
          [yielding [invocation "c" [invocation "d" []]]]),
        statement (creation "T" [] [inner]),
        returning [invocation "f" [lambda, word "x"]]]],
    phrase .enumDeclaration [symbol "enum", under .name (word "E"),
      under .body (braced (.other "enum_body") [constant])]]

/-- Members with a call of `g` that lowering passes over. -/
def lossy : List SyntaxTree :=
  let g := invocation "g" []
  let comment := leaf .blockComment "/* c */"
  let superKeyword := leaf .superKeyword "super"
  [ -- The expression of a `return`, of parentheses and of a `yield`, after a comment.
    methodOf "m" [] [returning [comment, g]],
    methodOf "m" [] [returning [parenthesized .parenthesizedExpression [comment, g]]],
    methodOf "m" [] [statement (switchOf (word "x") otherwise [yielding [comment, g]])],
    -- The guard of an arm of a switch.
    methodOf "m" [] [statement (switchOf (word "x") [symbol "case",
      phrase (.other "pattern") [phrase (.other "type_pattern") [typeName "T", word "y"]],
      phrase (.other "guard") [symbol "when", g]] [])],
    -- The outer object of a new one, and of the superclass when its constructor is called.
    methodOf "m" [] [statement (phrase .objectCreationExpression
      [g, symbol ".", symbol "new", under .type (typeName "T"), argumentList []])],
    phrase .constructorDeclaration [under .name (word "C"),
      under .parameters (parenthesized (.other "formal_parameters") []),
      under .body (braced (.other "constructor_body") [phrase .explicitConstructorInvocation
        [under .object g, symbol ".", under .constructor superKeyword, argumentList [],
          symbol ";"]])],
    -- What stands before `.super` and before `.this`.
    methodOf "m" [] [statement (phrase .methodInvocation [under .object g, symbol ".",
      superKeyword, symbol ".", under .name (word "h"), argumentList []])],
    methodOf "m" [] [returning [phrase .fieldAccess
      [under .object g, symbol ".", under .field (leaf .thisKeyword "this")]]],
    -- What is put into a text.
    methodOf "m" [] [returning [phrase .stringLiteral [symbol "\"",
      phrase (.other "string_interpolation") [symbol "\\\x7b", g, symbol "\x7d"],
      symbol "\""]]] ]

/-! ### Calls of a file -/

/-- Every call of a file is lowered to exactly one call of the unit, or stands inside a child that
lowering passes over. -/
theorem calls_ofTree_perm {tree : SyntaxTree} (h : tree.IsFile) (path : String)
    (hasErrors : Bool) :
    tree.calls.Perm ((ofTree path hasErrors tree).calls ++ tree.passedOver) :=
  tree.calls_perm.trans ((calls_perm_enteredCalls h path hasErrors).symm.append_right _)

theorem calls_ofTree_perm_nested :
    nested.IsFile ∧ nested.passedOver = [⟨"i", 1⟩] ∧
      (ofTree "C.java" false nested).calls.length = 8 ∧
      nested.calls.Perm ((ofTree "C.java" false nested).calls ++ nested.passedOver) := by
  have hfile : nested.IsFile := by decide +kernel
  refine ⟨hfile, by decide +kernel, by decide +kernel, ?_⟩
  exact calls_ofTree_perm hfile "C.java" false

/-- Without the calls that are passed over, not every call of a file is a call of the unit. -/
theorem not_mem_calls_ofTree_lossy :
    (lossy.map fun member => fileOf [classOf "C" [member]]).Forall fun file => file.IsFile ∧
      ⟨"g", 1⟩ ∈ file.calls ∧ ⟨"g", 1⟩ ∉ (ofTree "C.java" false file).calls := by
  decide +kernel

end CompilationUnit

end JavaCallGraph
