import JavaCallGraph.Proofs.CallAccounts
import JavaCallGraph.Proofs.TreeGrammar

/-!
# Calls in expressions

`NodeAccounts` says that the meanings of a node account for the calls that lowering comes to in it.
The expression that a node means does so when the meanings of the nodes below it do, whatever kind
of expression it is.
-/

namespace JavaCallGraph

namespace Lower

open JavaCallGraph.Tree

variable {x : Call} {q : Prop} {t c : Marked} {ts cs : List Marked} {o : Option Marked}

/-! ### Nodes whose meanings account for their calls -/

def tallyOf (x : Call) (o : Option Marked) : Nat := (o.map (tally x)).getD 0

/-- The tally of the members of a type body; compact constructors are left to the record. -/
def memberTally (x : Call) (t : Marked) : Nat :=
  ((t.children.filter (·.kind != .compactConstructorDeclaration)).map (tally x)).sum

/-- A node fits into its tree, and what it means accounts for the calls that lowering comes to. -/
structure NodeAccounts (x : Call) (t : Marked) : Prop where
  grammatical : t.Grammatical
  legal : t.Legal
  made : t.mark = meaning t.token t.children
  expr : t.kind.isExpression ∨ t.calls = [] →
    Accounts x t.mark.expr Expr.calls (t.tally x) (t.yieldsOut = false)
  stmts : t.kind.isPart = false →
    Accounts x t.mark.stmts (·.flatMap Stmt.calls) (t.tally x) (t.yieldsOut = false)
  members : t.kind.isTypeBody ∨ t.kind = .enumBodyDeclarations → ∀ d : TypeDecl,
    Accounts x (t.mark.members d) TypeDecl.calls (d.calls.count x + memberTally x t)
      (t.yieldsOut = false)
  declare : t.kind.isTypeDeclaration → ∀ enclosing : Option String,
    Accounts x (t.mark.declare enclosing) (fun _ => []) (t.tally x) (t.yieldsOut = false)

structure Counted (x : Call) (q : Prop) (t : Marked) : Prop where
  everywhere : t.Everywhere (NodeAccounts x)
  quiet : q → t.yieldsOut = false

structure Ready (x : Call) (t : Marked) : Prop where
  grammatical : t.Grammatical
  legal : t.Legal
  below : ∀ c ∈ t.children, c.Everywhere (NodeAccounts x)

/-- What a child yields leaves the node, except from the body of a lambda or a switch. -/
theorem Ready.child (h : Ready x t) (hc : c ∈ t.children)
    (hbody : t.kind.collectsYields = false ∨ c.token.label ≠ some .body) :
    Counted x (t.yieldsOut = false) c :=
  ⟨h.below c hc, fun hquiet => yieldsOut_of_mem hquiet hc hbody⟩

/-- The children of an open node share its tally and count like it. -/
theorem Ready.of_open (h : Ready x t) (hopen : t.kind.isOpen) :
    t.tally x = (t.children.map (tally x)).sum ∧
      ∀ c ∈ t.children, Counted x (t.yieldsOut = false) c := by
  rw [Kind.isOpen, Bool.and_eq_true, Bool.not_eq_true', Bool.not_eq_true'] at hopen
  exact ⟨tally_of_open hopen.1, fun _ hc => h.child hc (.inl hopen.2)⟩

namespace Counted

theorem node (h : Counted x q t) : NodeAccounts x t := (everywhere_iff.mp h.everywhere).1

theorem ready (h : Counted x q t) : Ready x t :=
  ⟨h.node.grammatical, h.node.legal, (everywhere_iff.mp h.everywhere).2⟩

theorem expr (h : Counted x q t) (hkind : t.kind.isExpression ∨ t.calls = []) :
    Accounts x t.mark.expr Expr.calls (t.tally x) q := (h.node.expr hkind).mono h.quiet

theorem stmts (h : Counted x q t) (hkind : t.kind.isPart = false) :
    Accounts x t.mark.stmts (·.flatMap Stmt.calls) (t.tally x) q :=
  (h.node.stmts hkind).mono h.quiet

theorem members (h : Counted x q t) (hkind : t.kind.isTypeBody ∨ t.kind = .enumBodyDeclarations)
    (d : TypeDecl) :
    Accounts x (t.mark.members d) TypeDecl.calls (d.calls.count x + memberTally x t) q :=
  (h.node.members hkind d).mono h.quiet

theorem declare (h : Counted x q t) (hkind : t.kind.isTypeDeclaration)
    (enclosing : Option String) :
    Accounts x (t.mark.declare enclosing) (fun _ => []) (t.tally x) q :=
  (h.node.declare hkind enclosing).mono h.quiet

theorem of_open (h : Counted x q t) (hopen : t.kind.isOpen) :
    t.tally x = (t.children.map (tally x)).sum ∧ ∀ c ∈ t.children, Counted x q c := by
  obtain ⟨htally, hcs⟩ := h.ready.of_open hopen
  exact ⟨htally, fun c hc => ⟨(hcs c hc).everywhere, fun hq => (hcs c hc).quiet (h.quiet hq)⟩⟩

/-- The body of a lambda or a switch counts, whatever it yields. -/
theorem anyhow (h : t.Everywhere (NodeAccounts x)) : Counted x False t := ⟨h, False.elim⟩

theorem tally_leaf (h : Counted x q t) (hleaf : t.kind.isLeaf ∨ t.token.isNamed = false) :
    t.tally x = 0 := tally_eq_zero (h.ready.grammatical.leaf hleaf)

theorem tally_comment (h : Counted x q t) (hcomment : t.kind.isComment) : t.tally x = 0 :=
  h.tally_leaf (.inl (Kind.isLeaf_of_isComment hcomment))

end Counted

/-- Keywords and operators hold no calls. -/
theorem sum_named (h : ∀ c ∈ cs, Counted x q c) :
    ((named cs).map (tally x)).sum = (cs.map (tally x)).sum := by
  refine sum_filter fun c hc => ?_
  cases hnamed : c.token.isNamed with
  | true => exact .inl rfl
  | false => exact .inr ((h c hc).tally_leaf (.inr hnamed))

theorem counted_named (h : ∀ c ∈ cs, Counted x q c) : ∀ c ∈ named cs, Counted x q c :=
  fun c hc => h c (List.mem_filter.mp hc).1

theorem sum_filter_named {p : Marked → Bool} (h : ∀ c ∈ cs, Counted x q c) :
    (((named cs).filter p).map (tally x)).sum = ((cs.filter p).map (tally x)).sum := by
  rw [named, List.filter_comm]
  exact sum_named fun c hc => h c (List.mem_filter.mp hc).1

theorem sum_find? {p : Marked → Bool} (h : ∀ c ∈ cs, Counted x q c)
    (honce : (cs.filter p).length ≤ 1) :
    ((cs.filter p).map (tally x)).sum = tallyOf x ((named cs).find? p) := by
  rw [← sum_filter_named h]
  refine sum_filter_of_length_le_one ?_
  rw [named, List.filter_comm]
  exact (List.length_filter_le ..).trans honce

theorem label_first? {label : Label} (h : c ∈ first? label cs) : c.token.label = some label := by
  simpa using List.find?_some h

theorem mem_first? {label : Label} (h : c ∈ first? label cs) : c ∈ cs :=
  List.mem_of_find?_eq_some h

theorem mem_labelled_of_first? {label : Label} (h : c ∈ first? label cs) :
    c ∈ labelled label cs :=
  List.mem_filter.mpr ⟨mem_first? h, by simpa using label_first? h⟩

/-! ### Lists of expressions and statements -/

theorem accounts_exprOr (h : ∀ c ∈ o, Accounts x c.mark.expr Expr.calls (c.tally x) q) :
    Accounts x (exprOr o) Expr.calls (tallyOf x o) q := by
  cases o with
  | none => exact accounts_pure rfl
  | some t => exact h t rfl

theorem accounts_exprs (h : ∀ c ∈ ts, Counted x q c)
    (hexpr : ∀ c ∈ ts, c.kind.isExpression ∨ c.calls = []) :
    Accounts x (exprs ts) (·.flatMap Expr.calls) (ts.map (tally x)).sum q :=
  accounts_mapM fun c hc => (h c hc).expr (hexpr c hc)

theorem accounts_exprs_named (h : ∀ c ∈ cs, Counted x q c)
    (hexpr : ∀ c ∈ cs, c.kind.isExpression ∨ c.calls = []) :
    Accounts x (exprs (named cs)) (·.flatMap Expr.calls) (cs.map (tally x)).sum q :=
  (accounts_exprs (counted_named h) fun c hc => hexpr c (List.mem_filter.mp hc).1).of_eq
    (sum_named h)

theorem accounts_innerExprs (h : ∀ c ∈ cs, Counted x q c)
    (hexpr : ∀ c ∈ cs, c.kind.isExpression ∨ c.calls = []) :
    Accounts x (innerExprs cs) (·.flatMap Expr.calls) (cs.map (tally x)).sum q := by
  have hrest : ∀ c ∈ named cs, c.kind.isExpression ∨ c.tally x = 0 :=
    fun c hc => (hexpr c (List.mem_filter.mp hc).1).imp_right tally_eq_zero
  refine (accounts_exprs (fun c hc => ?_) fun c hc => .inl (List.mem_filter.mp hc).2).of_eq ?_
  · exact counted_named h c (List.mem_filter.mp hc).1
  · rw [sum_filter hrest, sum_named h]

theorem accounts_arguments (h : ∀ c ∈ o, Counted x q c)
    (hkind : ∀ c ∈ o, c.kind = .other "argument_list") :
    Accounts x (arguments o) (·.flatMap Expr.calls) (tallyOf x o) q := by
  cases o with
  | none => exact accounts_pure rfl
  | some list =>
    have hlist := h list rfl
    have hkind := hkind list rfl
    obtain ⟨htally, hcs⟩ := hlist.of_open (by rw [hkind]; rfl)
    have hexpr := hlist.ready.grammatical.exprs (by rw [hkind]; rfl)
    have hcomments : ∀ c ∈ list.namedChildren, (!c.kind.isComment) ∨ c.tally x = 0 := by
      intro c hc
      cases hcomment : c.kind.isComment with
      | false => exact .inl rfl
      | true => exact .inr ((counted_named hcs c hc).tally_comment hcomment)
    refine (accounts_exprs (fun c hc => ?_) fun c hc => ?_).of_eq ?_
    · exact counted_named hcs c (List.mem_filter.mp hc).1
    · exact hexpr c (List.mem_filter.mp (List.mem_filter.mp hc).1).1
    · rw [sum_filter hcomments, namedChildren, sum_named hcs, ← htally]
      rfl

theorem accounts_concat_stmts (h : ∀ c ∈ cs, Counted x q c)
    (hpart : ∀ c ∈ cs, c.kind.isPart = false) :
    Accounts x (concatM (·.mark.stmts) (named cs)) (·.flatMap Stmt.calls)
      (cs.map (tally x)).sum q := by
  refine (accounts_concatM fun c hc => ?_).of_eq (sum_named h)
  exact (counted_named h c hc).stmts (hpart c (List.mem_filter.mp hc).1)

theorem accounts_block (h : Counted x q t) (hkind : t.kind.isExpression ∨ t.kind.isBlock) :
    Accounts x (block t) (·.flatMap Stmt.calls) (t.tally x) q := by
  unfold block
  split
  · next hexpr =>
    refine (h.expr (.inl hexpr)).last fun e => accounts_pure ?_
    simp
  · next hexpr =>
    have hblock := hkind.resolve_left hexpr
    obtain ⟨htally, hcs⟩ := h.of_open (Kind.isOpen_of_isBlock hblock)
    rw [htally]
    refine accounts_concat_stmts hcs (h.ready.grammatical.parts ?_)
    rcases Kind.eq_of_isBlock hblock with h | h <;> rw [h] <;> rfl

/-! ### Expressions -/

/-- A child under a label counts with the node, or is passed over with all that it holds. -/
theorem share_child (label : Label) (hidden : Bool) (h : ∀ c : Token, c.label = some label →
      t.token.passes (t.children.map token) c = hidden) :
    ((t.child? label).map (share x t.token t.children)).getD 0 =
      if hidden then 0 else tallyOf x (t.child? label) := by
  cases hchild : t.child? label with
  | none => simp [tallyOf]
  | some c => simp [tallyOf, share, h c.token (label_first? hchild)]

namespace Ready

variable {labels : List Label}

/-- All code of the node stands under its labels. -/
theorem sum_slots (h : Ready x t) (hslots : t.kind.slots = some labels)
    (hlabels : labels.Nodup) :
    (t.children.map (share x t.token t.children)).sum =
      (labels.map fun label =>
        ((t.child? label).map (share x t.token t.children)).getD 0).sum :=
  (h.grammatical.slots labels hslots).sum_eq hlabels fun _ _ => share_eq_zero

theorem tally_slots (h : Ready x t) (hslots : t.kind.slots = some labels)
    (hlabels : labels.Nodup) (hopen : t.kind.hides = false) :
    t.tally x = (labels.map fun label => tallyOf x (t.child? label)).sum := by
  rw [tally_of_open hopen]
  exact (h.grammatical.slots labels hslots).sum_eq hlabels fun _ _ => tally_eq_zero

theorem admitted (h : Ready x t) (hslots : t.kind.slots = some labels) (label : Label)
    (hlabel : label ∈ labels) : ∀ c ∈ t.child? label, t.kind.admits label c.kind := fun c hc =>
  (h.grammatical.slots labels hslots).admitted label hlabel c (mem_labelled_of_first? hc)

theorem counted (h : Ready x t) (label : Label) (hbody : label ≠ .body) :
    ∀ c ∈ t.child? label, Counted x (t.yieldsOut = false) c :=
  fun c hc => h.child (mem_first? hc) (.inr (by simpa [label_first? hc] using hbody))

theorem operand (h : Ready x t) (hslots : t.kind.slots = some labels) (label : Label)
    (hlabel : label ∈ labels) (hbody : label ≠ .body) (hargs : label ≠ .arguments) :
    ∀ c ∈ t.child? label, c.kind.isExpression ∨ c.calls = [] := by
  intro c hc
  have hadmits := h.admitted hslots label hlabel c hc
  rw [Kind.admits_operand hbody hargs] at hadmits
  exact .inl hadmits

theorem accounts_argumentSlot (h : Ready x t) (hslots : t.kind.slots = some labels)
    (hlabel : .arguments ∈ labels) :
    Accounts x (arguments (t.child? .arguments)) (·.flatMap Expr.calls)
      (tallyOf x (t.child? .arguments)) (t.yieldsOut = false) := by
  refine accounts_arguments (h.counted .arguments (by decide)) fun c hc => ?_
  simpa [Kind.admits] using h.admitted hslots .arguments hlabel c hc

theorem accounts_operand (h : Ready x t) (hslots : t.kind.slots = some labels) (label : Label)
    (hlabel : label ∈ labels) (hbody : label ≠ .body) (hargs : label ≠ .arguments) :
    Accounts x (exprOr (t.child? label)) Expr.calls (tallyOf x (t.child? label))
      (t.yieldsOut = false) :=
  accounts_exprOr fun c hc =>
    (h.counted label hbody c hc).expr (h.operand hslots label hlabel hbody hargs c hc)

theorem counted_of_holdsExpr (h : Ready x t) (hkind : t.kind.holdsExpr) :
    ∀ c ∈ t.children, Counted x (t.yieldsOut = false) c := by
  refine fun c hc => h.child hc (.inl ?_)
  rcases Kind.eq_of_holdsExpr hkind with h | h | h <;> rw [h] <;> rfl

/-- A node with one expression has its tally from its first named child: a comment there hides the
expression, and has no calls itself. -/
theorem tally_holdsExpr (h : Ready x t) (hkind : t.kind.holdsExpr) :
    t.tally x = tallyOf x t.namedChildren.head? := by
  have hcall : t.kind ≠ .methodInvocation := by
    rcases Kind.eq_of_holdsExpr hkind with h | h | h <;> simp [h]
  have hcs := h.counted_of_holdsExpr hkind
  have hcounted : ∀ c ∈ t.namedChildren, Counted x (t.yieldsOut = false) c := counted_named hcs
  have hsum : (t.namedChildren.map (tally x)).sum = (t.children.map (tally x)).sum := sum_named hcs
  have hsingle := h.grammatical.single hkind
  have hshare : share x t.token t.children =
      fun c => if t.namedChildren.head?.any (·.kind.isComment) then 0 else c.tally x := by
    funext c
    rw [share, passes_holdsExpr hkind]
    rfl
  rw [tally_eq, ownCalls_eq_nil hcall, List.count_nil, Nat.zero_add, hshare]
  cases hnamed : t.namedChildren with
  | nil =>
    rw [hnamed] at hsum
    simpa [tallyOf] using hsum.symm
  | cons first rest =>
    rw [hnamed] at hcounted hsum hsingle
    cases hcomment : first.kind.isComment with
    | true =>
      have hfirst := (hcounted first List.mem_cons_self).tally_comment hcomment
      simp [tallyOf, hcomment, hfirst]
    | false =>
      have hcomments : rest.filter (!·.kind.isComment) = [] := by
        simpa [hcomment] using hsingle
      have hrest : (rest.map (tally x)).sum = 0 := by
        refine sum_eq_zero fun c hc => (hcounted c (List.mem_cons_of_mem first hc)).tally_comment ?_
        simpa using List.filter_eq_nil_iff.mp hcomments c hc
      simp only [List.head?_cons, Option.any_some, hcomment, Bool.false_eq_true, if_false]
      rw [← hsum, List.map_cons, List.sum_cons, hrest]
      rfl

/-- Leaves have no calls. -/
theorem accounts_leaf (h : Ready x t) (hleaf : t.kind.isLeaf) {e : Expr} (he : e.calls = []) :
    Accounts x (pure e) Expr.calls (t.tally x) q :=
  accounts_pure (by rw [he, tally_eq_zero (h.grammatical.leaf (.inl hleaf)), List.count_nil])

theorem accounts_receiver (h : Ready x t) (hkind : t.kind = .methodInvocation) :
    Accounts x (receiver t.children) Receiver.calls
      (((t.child? .object).map (share x t.token t.children)).getD 0) (t.yieldsOut = false) := by
  have hslots : t.kind.slots = some [.object, .arguments] := by rw [hkind]; rfl
  unfold receiver
  cases hobject : t.child? .object with
  | none =>
    rw [show first? .object t.children = none from hobject]
    exact accounts_pure rfl
  | some object =>
    rw [show first? .object t.children = some object from hobject]
    have hlabel : object.token.label = some .object := label_first? hobject
    have hexpr := h.operand hslots .object (by decide) (by decide) (by decide) object hobject
    have hobject := h.counted .object (by decide) object hobject
    have hpasses : t.token.passes (t.children.map token) object.token =
        (t.children.eraseP (·.token.label == some .object)).any (·.kind == .superKeyword) := by
      rw [Token.passes, show t.token.kind = _ from hkind]
      simp [hlabel, List.eraseP_map, Function.comp_def, Tree.kind]
    simp only [Option.map_some, Option.getD_some, share, hpasses]
    split
    · next hsuper =>
      have hsuper : object.kind = .superKeyword := by simpa using hsuper
      have hleaf := hobject.tally_leaf (.inl (by rw [hsuper]; rfl))
      exact accounts_pure (by simp [hleaf])
    · split
      · exact accounts_pure rfl
      · exact (hobject.expr hexpr).last fun e => accounts_pure rfl

theorem accounts_fieldAccess (h : Ready x t) (hkind : t.kind = .fieldAccess) :
    Accounts x (fieldAccess t.children) Expr.calls (t.tally x) (t.yieldsOut = false) := by
  have hslots : t.kind.slots = some [.object] := by rw [hkind]; rfl
  obtain ⟨hobject, hfield⟩ := h.grammatical.access hkind
  obtain ⟨object, hobject⟩ := Option.isSome_iff_exists.mp hobject
  obtain ⟨field, hfield⟩ := Option.isSome_iff_exists.mp hfield
  have hlabel : object.token.label = some .object := label_first? hobject
  have hexpr := h.operand hslots .object (by decide) (by decide) (by decide) object hobject
  have hcounted := h.counted .object (by decide) object hobject
  have hpasses : t.token.passes (t.children.map token) object.token =
      (field.kind == .thisKeyword) := by
    have hfind : (t.children.map token).find? (·.label == some .field) = some field.token := by
      rw [List.find?_map]
      exact congrArg (Option.map token) hfield
    rw [Token.passes, show t.token.kind = _ from hkind]
    simp [hlabel, hfind, Tree.kind]
  have htally : t.tally x = if field.kind == .thisKeyword then 0 else object.tally x := by
    rw [tally_eq, ownCalls_eq_nil (by simp [hkind]), h.sum_slots hslots (by decide)]
    simp [hobject, share, hpasses]
  have hrun : fieldAccess t.children =
      if field.kind == .thisKeyword then return .this (some (.named (cleanName object.text)))
      else do
        let value ← if object.kind == .superKeyword then pure .super else object.mark.expr
        return .fieldAccess value field.text := by
    unfold fieldAccess
    rw [show first? .object t.children = some object from hobject,
      show first? .field t.children = some field from hfield]
  rw [htally, hrun]
  split
  · exact accounts_pure rfl
  · split
    · next hsuper =>
      have hsuper : object.kind = .superKeyword := by simpa using hsuper
      have hleaf := hcounted.tally_leaf (.inl (by rw [hsuper]; rfl))
      exact accounts_pure (by simp [hleaf])
    · exact (hcounted.expr hexpr).last fun e => accounts_pure rfl

end Ready

/-- Dimensions and elements of a new array are lists of expressions. -/
theorem accounts_arrayPart (h : Counted x q t)
    (hkind : t.calls = [] ∨ t.kind = .dimensionsExpr ∨ t.kind = .arrayInitializer) :
    Accounts x (arrayPart t) (·.2.flatMap Expr.calls) (t.tally x) q := by
  have hinner (hlist : t.kind = .dimensionsExpr ∨ t.kind = .arrayInitializer) :
      Accounts x (innerExprs t.children) (·.flatMap Expr.calls) (t.tally x) q := by
    have hkind : t.kind.isOpen ∧ t.kind.listsExprs := by
      rcases hlist with h | h <;> rw [h] <;> exact ⟨rfl, rfl⟩
    obtain ⟨htally, hcs⟩ := h.of_open hkind.1
    rw [htally]
    exact accounts_innerExprs hcs (h.ready.grammatical.exprs hkind.2)
  unfold arrayPart
  split
  · next hdims =>
    refine (hinner (.inl hdims)).last fun es => accounts_pure ?_
    simp
  · next hdims =>
    have hsilent := hkind.resolve_right (by simp [show t.kind = _ from hdims])
    exact accounts_pure (by simp [tally_eq_zero hsilent])
  · next hinit => exact (hinner (.inr hinit)).last fun es => accounts_pure rfl
  · next hdims _ hinit =>
    have hsilent := hkind.resolve_right (not_or.mpr ⟨hdims, hinit⟩)
    exact accounts_pure (by simp [tally_eq_zero hsilent])

theorem Ready.accounts_arrayParts (h : Ready x t) (hkind : t.kind = .arrayCreationExpression) :
    Accounts x ((named t.children).mapM arrayPart)
      (·.flatMap (·.2.flatMap Expr.calls)) (t.tally x) (t.yieldsOut = false) := by
  obtain ⟨htally, hcs⟩ := h.of_open (by rw [hkind]; rfl)
  rw [htally, ← sum_named hcs]
  refine accounts_mapM fun c hc => accounts_arrayPart (counted_named hcs c hc) ?_
  exact h.grammatical.array hkind c (List.mem_filter.mp hc).1

theorem Ready.accounts_methodRefReceiver (h : Ready x t) (hkind : t.kind = .methodReference) :
    Accounts x (methodRefReceiver t.children) Expr.calls (t.tally x) (t.yieldsOut = false) := by
  obtain ⟨htally, hcs⟩ := h.of_open (by rw [hkind]; rfl)
  have hexpr := h.grammatical.exprs (by rw [hkind]; rfl)
  have htail := h.grammatical.reference hkind
  have hcounted : ∀ c ∈ t.namedChildren, Counted x (t.yieldsOut = false) c := counted_named hcs
  have hsum : (t.namedChildren.map (tally x)).sum = (t.children.map (tally x)).sum := sum_named hcs
  have hmem : ∀ c ∈ t.namedChildren, c.kind.isExpression ∨ c.calls = [] :=
    fun c hc => hexpr c (List.mem_filter.mp hc).1
  rw [htally, ← hsum]
  unfold methodRefReceiver
  rw [show named t.children = t.namedChildren from rfl]
  cases hnamed : t.namedChildren with
  | nil => exact accounts_pure rfl
  | cons r rest =>
    rw [hnamed] at hcounted hmem htail
    have hrest : (rest.map (tally x)).sum = 0 := sum_eq_zero fun c hc => tally_eq_zero (htail c hc)
    rw [List.map_cons, List.sum_cons, hrest, Nat.add_zero, List.head?_cons]
    dsimp only
    split
    · next hr => exact (hcounted r List.mem_cons_self).expr (.inl hr)
    · next hr =>
      have hsilent := (hmem r List.mem_cons_self).resolve_left hr
      exact accounts_pure (by simp [tally_eq_zero hsilent])

/-! ### Switches -/

def partCalls (p : List Stmt × List Expr) : List Call :=
  p.1.flatMap Stmt.calls ++ p.2.flatMap Expr.calls

theorem count_partCalls (parts : List (List Stmt × List Expr)) :
    (parts.flatMap partCalls).count x =
      (partCalls (parts.flatMap (·.1), parts.flatMap (·.2))).count x := by
  unfold partCalls
  rw [List.flatMap_assoc, List.flatMap_assoc]
  exact ((List.flatMap_append_perm ..).count_eq x).symm

theorem accounts_armPart (h : Counted x q t)
    (hkind : t.kind = .switchLabel ∨ t.kind.isPart = false) (isRule : Bool) :
    Accounts x (armPart isRule t) partCalls (t.tally x) q := by
  unfold armPart
  split
  · next hlabel =>
    have hlabel : t.kind = .switchLabel := by simpa using hlabel
    have htally : t.tally x = 0 := tally_of_closed (by simp [hlabel]) fun c => by
      rw [Token.passes, show t.token.kind = _ from hlabel]
    exact accounts_pure (by rw [htally]; rfl)
  · next hlabel =>
    have hpart := hkind.resolve_left (by simpa using hlabel)
    split
    · next hrule =>
      have hkind : t.kind = .expressionStatement := by simp_all
      obtain ⟨htally, hcs⟩ := h.of_open (by rw [hkind]; rfl)
      rw [htally]
      have hexpr := h.ready.grammatical.exprs (by rw [hkind]; rfl)
      refine (accounts_exprs_named hcs hexpr).last fun es => accounts_pure ?_
      simp [partCalls]
    · exact (h.stmts hpart).last fun ss => accounts_pure (by simp [partCalls])

theorem accounts_switchArm (h : Counted x q t) (hkind : t.kind.isArm ∨ t.kind.isComment) :
    Accounts x (switchArm t) partCalls (t.tally x) q := by
  obtain ⟨htally, hcs⟩ := h.of_open (hkind.elim Kind.isOpen_of_isArm Kind.isOpen_of_isComment)
  have hparts : ∀ c ∈ t.children, c.kind = .switchLabel ∨ c.kind.isPart = false := by
    rcases hkind with harm | hcomment
    · exact h.ready.grammatical.armParts harm
    · refine fun c hc => .inr (h.ready.grammatical.parts ?_ c hc)
      rcases Kind.eq_of_isComment hcomment with h | h <;> rw [h] <;> rfl
  have harm : Accounts x (t.namedChildren.mapM (armPart (t.kind == .switchRule)))
      (·.flatMap partCalls) (t.namedChildren.map (tally x)).sum q :=
    accounts_mapM fun c hc =>
      accounts_armPart (counted_named hcs c hc) (hparts c (List.mem_filter.mp hc).1) _
  rw [htally, ← sum_named hcs]
  exact harm.last fun parts => accounts_pure (count_partCalls parts).symm

theorem Ready.accounts_switchExpr (h : Ready x t) (hkind : t.kind = .switchExpression) :
    Accounts x (switchExpr t.children) Expr.calls (t.tally x) (t.yieldsOut = false) := by
  have hslots : t.kind.slots = some [.condition, .body] := by rw [hkind]; rfl
  have hselector := h.accounts_operand hslots .condition (by decide) (by decide) (by decide)
  have harms : Accounts x ((((t.child? .body).map namedChildren).getD []).mapM switchArm)
      (·.flatMap partCalls) (tallyOf x (t.child? .body)) False := by
    cases hbody : t.child? .body with
    | none => exact accounts_pure rfl
    | some body =>
      have hblock : body.kind = .other "switch_block" := by
        simpa [hkind, Kind.admits] using h.admitted hslots .body (by decide) body hbody
      have hcounted := Counted.anyhow (h.below body (mem_first? hbody))
      obtain ⟨htally, hcs⟩ := hcounted.of_open (by rw [hblock]; rfl)
      have hsum : tallyOf x (some body) = (body.namedChildren.map (tally x)).sum := by
        rw [namedChildren, sum_named hcs, ← htally]
        rfl
      rw [hsum]
      refine accounts_mapM fun c hc => accounts_switchArm (counted_named hcs c hc) ?_
      exact hcounted.ready.grammatical.arms hblock c hc
  rw [h.tally_slots hslots (by decide) (by rw [hkind]; rfl)]
  simp only [List.map_cons, List.map_nil, List.sum_cons, List.sum_nil]
  refine hselector.bind (tallyOf x (t.child? .body)) (fun selector => ?_) rfl
  refine (accounts_collectYields harms).bind (selector.calls.count x) (fun collected => ?_)
    (Nat.add_comm _ _)
  obtain ⟨parts, yields⟩ := collected
  refine accounts_pure ?_
  simp only [Expr.calls, Expr.callsIn_eq, Stmt.callsIn_eq, List.count_append, count_partCalls,
    partCalls, List.flatMap_append]
  omega

/-! ### New objects and lambda expressions -/

theorem Ready.memberTally_eq (h : Ready x t) (hopen : t.kind.isOpen)
    (hcompact : ∀ c ∈ t.children, c.kind ≠ .compactConstructorDeclaration) :
    memberTally x t = t.tally x := by
  rw [memberTally, (h.of_open hopen).1, sum_filter]
  exact fun c hc => .inl (by simpa using hcompact c hc)

theorem accounts_nextAnonymous (owner : String) :
    Accounts x (nextAnonymous owner) (fun _ => []) 0 q := by
  refine accounts_get.skip fun s => ?_
  exact Accounts.skip (accounts_modify fun _ => ⟨rfl, rfl⟩) fun _ => accounts_pure rfl

theorem accounts_anonymousClass {body : Marked} (h : Counted x q body)
    (hkind : body.kind = .classBody)
    (hcompact : ∀ c ∈ body.children, c.kind ≠ .compactConstructorDeclaration)
    (superclass : TypeRef) :
    Accounts x (anonymousClass superclass body) (fun _ => []) (body.tally x) q := by
  have htally := h.ready.memberTally_eq (by rw [hkind]; rfl) hcompact
  have hbody : body.kind.isTypeBody := by rw [hkind]; rfl
  refine accounts_read.skip fun owner => ?_
  refine (accounts_nextAnonymous _).skip fun number => ?_
  refine (((h.members (.inl hbody) _).of_eq ?_).inType _).last fun d => ?_
  · simp [htally, TypeDecl.calls]
  · exact (accounts_addType d).next fun _ => accounts_pure rfl

/-- What stands before `new` is passed over; the arguments and the class body count. -/
theorem Ready.tally_creation (h : Ready x t) (hkind : t.kind = .objectCreationExpression) :
    t.tally x = tallyOf x (t.child? .arguments) +
      tallyOf x (t.namedChildren.find? (·.kind == .classBody)) := by
  obtain ⟨harguments, hbody, hlist⟩ := h.grammatical.creationOnce hkind
  have hcs : ∀ c ∈ t.children, Counted x (t.yieldsOut = false) c :=
    fun c hc => h.child hc (.inl (by rw [hkind]; rfl))
  have hshare : ∀ c ∈ t.children, share x t.token t.children c =
      (if c.token.label == some .arguments then c.tally x else 0) +
        if c.kind == .classBody then c.tally x else 0 := by
    intro c hc
    have hpasses : t.token.passes (t.children.map token) c.token = c.kind.isExpression := by
      rw [Token.passes, show t.token.kind = _ from hkind]
      rfl
    rw [share, hpasses]
    by_cases hlabel : c.token.label = some .arguments
    · have hargument := hlist c (List.mem_filter.mpr ⟨hc, by simpa using hlabel⟩)
      simp [hlabel, hargument, Kind.isExpression]
    · by_cases hclass : c.kind = .classBody
      · simp [hlabel, hclass, Kind.isExpression]
      · rcases h.grammatical.creation hkind c hc with hexpr | hsilent | hargument | hbody
        · simp [hlabel, hclass, hexpr]
        · simp [hlabel, hclass, tally_eq_zero hsilent]
        · exact absurd hargument hlabel
        · exact absurd hbody hclass
  rw [tally_eq, ownCalls_eq_nil (by simp [hkind]), List.map_congr_left hshare, List.sum_map_add,
    sum_ite, sum_ite, sum_find? hcs hbody, List.count_nil, Nat.zero_add]
  exact congrArg (· + _) (sum_filter_of_length_le_one harguments)

theorem Ready.accounts_creation (h : Ready x t) (hkind : t.kind = .objectCreationExpression)
    (type : TypeRef) :
    Accounts x (do
      let args ← arguments (t.child? .arguments)
      let bodyType ← (t.namedChildren.find? (·.kind == .classBody)).mapM (anonymousClass type)
      return Expr.new type args bodyType (t.token.row + 1)) Expr.calls (t.tally x)
      (t.yieldsOut = false) := by
  have harguments : Accounts x (arguments (t.child? .arguments)) (·.flatMap Expr.calls)
      (tallyOf x (t.child? .arguments)) (t.yieldsOut = false) := by
    refine accounts_arguments (h.counted .arguments (by decide)) fun c hc => ?_
    exact (h.grammatical.creationOnce hkind).2.2 c (mem_labelled_of_first? hc)
  have hbody : Accounts x
      ((t.namedChildren.find? (·.kind == .classBody)).mapM (anonymousClass type))
      (fun r => (r.map fun _ => []).getD [])
      (tallyOf x (t.namedChildren.find? (·.kind == .classBody))) (t.yieldsOut = false) := by
    refine accounts_mapM_option fun body hbody => ?_
    have hmem := (List.mem_filter.mp (List.mem_of_find?_eq_some hbody)).1
    have hcounted := h.child hmem (.inl (by rw [hkind]; rfl))
    refine accounts_anonymousClass hcounted (by simpa using List.find?_some hbody) ?_ type
    exact h.legal.compact (by simp [hkind]) body hmem
  rw [h.tally_creation hkind]
  refine harguments.bind (tallyOf x (t.namedChildren.find? (·.kind == .classBody)))
    (fun args => ?_) rfl
  refine hbody.bind ((args.flatMap Expr.calls).count x) (fun name => accounts_pure ?_)
    (Nat.add_comm _ _)
  cases name with
  | none => simp
  | some name => simp

/-- The language lets no `yield` leave a lambda expression, so its body gives no results away. -/
theorem Ready.accounts_lambdaBody (h : Ready x t) (hkind : t.kind = .lambdaExpression)
    {body : Marked} (hbody : t.child? .body = some body) :
    Accounts x (collectYields (block body)) (·.1.flatMap Stmt.calls) (t.tally x)
      (t.yieldsOut = false) := by
  have hslots : t.kind.slots = some [.body] := by rw [hkind]; rfl
  have hquiet : body.yieldsOut = false := h.legal.lambda hkind body hbody
  have hcounted : Counted x (body.yieldsOut = false) body := ⟨h.below body (mem_first? hbody), id⟩
  have hblock : body.kind.isExpression ∨ body.kind.isBlock := by
    simpa [hkind, Kind.admits] using h.admitted hslots .body (by decide) body hbody
  have htally : t.tally x = body.tally x := by
    rw [h.tally_slots hslots (by decide) (by rw [hkind]; rfl)]
    simp [hbody, tallyOf]
  rw [htally]
  exact accounts_collectYields_quiet (accounts_block hcounted hblock) hquiet

theorem Ready.accounts_head (h : Ready x t) (hkind : t.kind.holdsExpr) :
    ∀ c ∈ t.namedChildren.head?,
      Accounts x c.mark.expr Expr.calls (c.tally x) (t.yieldsOut = false) := by
  intro c hc
  have hmem := (List.mem_filter.mp (List.mem_of_mem_head? hc)).1
  have hlist : t.kind.listsExprs := by
    rcases Kind.eq_of_holdsExpr hkind with h | h | h <;> rw [h] <;> rfl
  exact (h.counted_of_holdsExpr hkind c hmem).expr (h.grammatical.exprs hlist c hmem)

theorem Ready.accounts_invocation (h : Ready x t) (hkind : t.kind = .methodInvocation) :
    Accounts x (do
      let receiver ← receiver t.children
      let args ← arguments (t.child? .arguments)
      return Expr.call receiver (((t.child? .name).map text).getD "") args (t.token.row + 1))
      Expr.calls (t.tally x) (t.yieldsOut = false) := by
  have hslots : t.kind.slots = some [.object, .arguments] := by rw [hkind]; rfl
  have harguments := share_child (x := x) (t := t) .arguments false fun c hc => by
    rw [Token.passes, show t.token.kind = _ from hkind, hc]
    rfl
  set call : Call := ⟨((t.child? .name).map text).getD "", t.token.row + 1⟩ with hcall
  have hown : ownCalls t.token t.children = [call] := if_pos hkind
  rw [tally_eq, hown, h.sum_slots hslots (by decide)]
  simp only [List.map_cons, List.map_nil, List.sum_cons, List.sum_nil, harguments]
  refine (h.accounts_receiver hkind).bind
    ([call].count x + tallyOf x (t.child? .arguments)) (fun r => ?_) (by simp; omega)
  refine (h.accounts_argumentSlot hslots (by decide)).bind ([call].count x + r.calls.count x)
    (fun args => accounts_pure ?_) (by omega)
  simp only [Expr.calls, Expr.callsIn_eq, List.count_cons, List.count_append, List.count_nil, hcall]
  omega

/-- A node with one operand. -/
theorem Ready.accounts_one (h : Ready x t) {l : Label} (hslots : t.kind.slots = some [l])
    (hopen : t.kind.hides = false) (hl : l ≠ .body ∧ l ≠ .arguments) {make : Expr → Expr}
    (hmake : ∀ a, (make a).calls = a.calls) :
    Accounts x (do return make (← exprOr (t.child? l))) Expr.calls (t.tally x)
      (t.yieldsOut = false) := by
  rw [h.tally_slots hslots (List.nodup_singleton l) hopen]
  simp only [List.map_cons, List.map_nil, List.sum_cons, List.sum_nil]
  refine (h.accounts_operand hslots l (by simp) hl.1 hl.2).last fun a => accounts_pure ?_
  rw [hmake]

/-- A node with two operands. -/
theorem Ready.accounts_two (h : Ready x t) {l r : Label} (hslots : t.kind.slots = some [l, r])
    (hopen : t.kind.hides = false)
    (hlabels : l ≠ r ∧ (l ≠ .body ∧ l ≠ .arguments) ∧ r ≠ .body ∧ r ≠ .arguments)
    {make : Expr → Expr → Expr} (hmake : ∀ a b, (make a b).calls = a.calls ++ b.calls) :
    Accounts x (do
      let a ← exprOr (t.child? l)
      let b ← exprOr (t.child? r)
      return make a b) Expr.calls (t.tally x) (t.yieldsOut = false) := by
  obtain ⟨hne, hl, hr⟩ := hlabels
  rw [h.tally_slots hslots (by simpa using hne) hopen]
  simp only [List.map_cons, List.map_nil, List.sum_cons, List.sum_nil]
  refine (h.accounts_operand hslots l (by simp) hl.1 hl.2).bind (tallyOf x (t.child? r))
    (fun a => ?_) rfl
  refine (h.accounts_operand hslots r (by simp) hr.1 hr.2).bind (a.calls.count x)
    (fun b => accounts_pure ?_) (Nat.add_comm _ _)
  rw [hmake, List.count_append, Nat.add_comm]

theorem Ready.accounts_ternary (h : Ready x t) (hkind : t.kind = .ternaryExpression) :
    Accounts x (do
      let condition ← exprOr (t.child? .condition)
      let yes ← exprOr (t.child? .consequence)
      let no ← exprOr (t.child? .alternative)
      return Expr.conditional condition yes no) Expr.calls (t.tally x) (t.yieldsOut = false) := by
  have hslots : t.kind.slots = some [.condition, .consequence, .alternative] := by rw [hkind]; rfl
  have hoperand (label : Label) (hlabel : label ∈ [.condition, .consequence, .alternative])
      (hother : label ≠ .body ∧ label ≠ .arguments) :=
    h.accounts_operand hslots label hlabel hother.1 hother.2
  rw [h.tally_slots hslots (by decide) (by rw [hkind]; rfl)]
  simp only [List.map_cons, List.map_nil, List.sum_cons, List.sum_nil]
  refine (hoperand .condition (by decide) (by decide)).bind
    (tallyOf x (t.child? .consequence) + tallyOf x (t.child? .alternative)) (fun a => ?_) rfl
  refine (hoperand .consequence (by decide) (by decide)).bind
    (tallyOf x (t.child? .alternative) + a.calls.count x) (fun b => ?_) (by omega)
  refine (hoperand .alternative (by decide) (by decide)).bind
    (a.calls.count x + b.calls.count x) (fun c => accounts_pure ?_) (by omega)
  simp only [Expr.calls, List.count_append]
  omega

/-- A node that lists expressions, or has no calls at all. -/
theorem Ready.accounts_inner (h : Ready x t) (hyields : t.kind.collectsYields = false)
    (hlist : t.kind.isOpen ∧ t.kind.listsExprs ∨ t.calls = []) :
    Accounts x (innerExprs t.children) (·.flatMap Expr.calls) (t.tally x)
      (t.yieldsOut = false) := by
  rcases hlist with ⟨hopen, hlist⟩ | hsilent
  · obtain ⟨htally, hcs⟩ := h.of_open hopen
    rw [htally]
    exact accounts_innerExprs hcs (h.grammatical.exprs hlist)
  · have hbelow : ∀ c ∈ t.children, c.calls = [] := fun c hc => calls_eq_nil_of_mem hsilent hc
    have hsum : (t.children.map (tally x)).sum = 0 :=
      sum_eq_zero fun c hc => tally_eq_zero (hbelow c hc)
    rw [tally_eq_zero hsilent, ← hsum]
    exact accounts_innerExprs (fun c hc => h.child hc (.inl hyields)) fun c hc => .inr (hbelow c hc)

theorem Ready.accounts_exprMeaning (h : Ready x t) (hexpr : t.kind.isExpression ∨ t.calls = []) :
    Accounts x (exprMeaning t.token t.children) Expr.calls (t.tally x) (t.yieldsOut = false) := by
  have hleaf (hleaf : t.kind.isLeaf) {e : Expr} (he : e.calls = []) :
      Accounts x (pure e) Expr.calls (t.tally x) (t.yieldsOut = false) := h.accounts_leaf hleaf he
  unfold exprMeaning
  split
  · next hkind =>
    have hkind : t.kind.holdsExpr := by rw [Tree.kind, hkind]; rfl
    rw [h.tally_holdsExpr hkind]
    exact accounts_exprOr (h.accounts_head hkind)
  all_goals try
    next hkind => exact hleaf (show t.token.kind.isLeaf by rw [hkind]; rfl) rfl
  -- A literal text is never entered.
  · next hkind =>
    have htally : t.tally x = 0 := tally_of_closed (by simp [Tree.kind, hkind]) fun c => by
      rw [Token.passes, hkind]
    exact accounts_pure htally.symm
  · next hkind =>
    have htally : t.tally x = 0 := tally_of_closed (by simp [Tree.kind, hkind]) fun c => by
      rw [Token.passes, hkind]
    exact accounts_pure htally.symm
  · next hkind => exact h.accounts_invocation hkind
  · next hkind => exact h.accounts_creation hkind _
  · next hkind => exact h.accounts_fieldAccess hkind
  · next hkind =>
    refine h.accounts_two (l := .left) (r := .right) (by rw [Tree.kind, hkind]; rfl)
      (by rw [Tree.kind, hkind]; rfl) (by decide) (fun target value => ?_)
    split
    · rfl
    · simp
  · next hkind =>
    exact h.accounts_two (l := .left) (r := .right) (by rw [Tree.kind, hkind]; rfl)
      (by rw [Tree.kind, hkind]; rfl) (by decide) fun _ _ => rfl
  · next hkind =>
    exact h.accounts_one (l := .left) (by rw [Tree.kind, hkind]; rfl)
      (by rw [Tree.kind, hkind]; rfl) (by decide) fun _ => rfl
  · next hkind =>
    exact h.accounts_one (l := .value) (by rw [Tree.kind, hkind]; rfl)
      (by rw [Tree.kind, hkind]; rfl) (by decide) fun _ => rfl
  · next hkind => exact h.accounts_ternary hkind
  · next hkind =>
    exact h.accounts_two (l := .array) (r := .index) (by rw [Tree.kind, hkind]; rfl)
      (by rw [Tree.kind, hkind]; rfl) (by decide) fun _ _ => rfl
  · next hkind =>
    refine (h.accounts_arrayParts hkind).last fun parts => accounts_pure ?_
    simp [List.flatMap_assoc]
  · next hkind =>
    split
    · next body hbody =>
      refine (h.accounts_lambdaBody hkind hbody).last fun collected => ?_
      exact accounts_pure (by simp)
    · next hbody =>
      have hslots : t.kind.slots = some [.body] := by rw [Tree.kind, hkind]; rfl
      refine accounts_pure ?_
      rw [h.tally_slots hslots (by decide) (by rw [Tree.kind, hkind]; rfl)]
      simp [show t.child? .body = none from hbody, tallyOf]
  · next hkind =>
    exact (h.accounts_methodRefReceiver hkind).last fun r => accounts_pure rfl
  · next hkind => exact h.accounts_switchExpr hkind
  · have hyields : t.kind.collectsYields = false := by
      unfold Kind.collectsYields
      split
      · contradiction
      · contradiction
      · rfl
    have hlist : t.kind.isOpen ∧ t.kind.listsExprs ∨ t.calls = [] := by
      refine hexpr.imp_left fun hexpr => ?_
      unfold Kind.isExpression at hexpr
      split at hexpr
      all_goals first
        | contradiction
        | next hkind => exact hkind ▸ ⟨rfl, rfl⟩
    exact (h.accounts_inner hyields hlist).last fun es => accounts_pure (by simp)

end Lower

end JavaCallGraph
