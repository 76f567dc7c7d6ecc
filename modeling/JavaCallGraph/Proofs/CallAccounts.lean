import JavaCallGraph.Proofs.TreeCalls

/-!
# Accounts of calls

The calls of a compilation unit stand in the bodies and field initializers of its types. While a
tree is lowered, the calls found so far are in what an action returns, in the types read to their
end, and in the results that wait for a switch to end. `Accounts` says that an action adds a number
of copies of one call to these, and leaves the switches further out alone.
-/

namespace JavaCallGraph

/-! ### Calls of a unit -/

mutual

/-- The calls of an expression; an anonymous class is a type of its own. -/
@[simp] def Expr.calls : Expr → List Call
  | .new _ args _ _ => Expr.callsIn args
  | .call receiver name args line => ⟨name, line⟩ :: (receiver.calls ++ Expr.callsIn args)
  | .fieldAccess receiver _ => receiver.calls
  | .name _ | .this _ | .super | .literal _ => []
  | .binary _ left right => left.calls ++ right.calls
  | .instanceOf value _ _ => value.calls
  | .assign target value => target.calls ++ value.calls
  | .cast _ value => value.calls
  | .conditional condition yes no => condition.calls ++ (yes.calls ++ no.calls)
  | .arrayAccess array index => array.calls ++ index.calls
  | .arrayNew _ elements => Expr.callsIn elements
  | .lambda _ body => Stmt.callsIn body
  | .switch selector body values => selector.calls ++ (Stmt.callsIn body ++ Expr.callsIn values)
  | .methodRef receiver _ => receiver.calls
  | .other parts => Expr.callsIn parts

def Expr.callsIn : List Expr → List Call
  | [] => []
  | e :: es => e.calls ++ Expr.callsIn es

@[simp] def Receiver.calls : Receiver → List Call
  | .implicit | .super | .qualifiedSuper _ => []
  | .expr value => value.calls

@[simp] def Stmt.calls : Stmt → List Call
  | .localVar _ _ none | .ret none => []
  | .localVar _ _ (some init) => init.calls
  | .forEach _ _ iterable => iterable.calls
  | .expr value | .ret (some value) => value.calls
  | .ctorCall _ args _ => Expr.callsIn args

def Stmt.callsIn : List Stmt → List Call
  | [] => []
  | s :: ss => s.calls ++ Stmt.callsIn ss

end

@[simp] theorem Expr.callsIn_eq (es : List Expr) : Expr.callsIn es = es.flatMap Expr.calls := by
  induction es with
  | nil => rfl
  | cons e es ih => rw [Expr.callsIn, ih, List.flatMap_cons]

@[simp] theorem Stmt.callsIn_eq (ss : List Stmt) : Stmt.callsIn ss = ss.flatMap Stmt.calls := by
  induction ss with
  | nil => rfl
  | cons s ss ih => rw [Stmt.callsIn, ih, List.flatMap_cons]

@[simp] theorem Stmt.flatMap_calls_expr (es : List Expr) :
    (es.map Stmt.expr).flatMap Stmt.calls = es.flatMap Expr.calls := by
  simp [List.flatMap_map]

def FieldDecl.calls (f : FieldDecl) : List Call := (f.init.map Expr.calls).getD []

def MethodDecl.calls (m : MethodDecl) : List Call := (m.body.getD []).flatMap Stmt.calls

def Initializer.calls (i : Initializer) : List Call := i.body.flatMap Stmt.calls

def TypeDecl.calls (d : TypeDecl) : List Call :=
  d.fields.flatMap FieldDecl.calls ++
    (d.methods.flatMap MethodDecl.calls ++ d.initializers.flatMap Initializer.calls)

section Members

variable (d : TypeDecl) (x : Call)

theorem TypeDecl.count_addFields (fields : List FieldDecl) :
    { d with fields := d.fields ++ fields }.calls.count x =
      d.calls.count x + (fields.flatMap FieldDecl.calls).count x := by
  simp only [calls, List.flatMap_append, List.count_append]
  omega

theorem TypeDecl.count_addMethod (m : MethodDecl) :
    { d with methods := d.methods ++ [m] }.calls.count x = d.calls.count x + m.calls.count x := by
  simp only [calls, List.flatMap_append, List.flatMap_singleton, List.count_append]
  omega

theorem TypeDecl.count_addInitializer (i : Initializer) :
    { d with initializers := d.initializers ++ [i] }.calls.count x =
      d.calls.count x + i.calls.count x := by
  simp only [calls, List.flatMap_append, List.flatMap_singleton, List.count_append]
  omega

end Members

def CompilationUnit.calls (u : CompilationUnit) : List Call := u.types.flatMap TypeDecl.calls

/-! ### Actions that account for a call -/

def Lowered.calls (s : Lowered) : List Call :=
  s.types.flatMap TypeDecl.calls ++ s.yields.flatMap fun found => found.flatMap Expr.calls

/-- The same switches are open, and all but the innermost wait for the same results. -/
def SameOuter (ys zs : List (List Expr)) : Prop := ys.tail = zs.tail ∧ (ys = [] ↔ zs = [])

namespace SameOuter

variable {ys zs ws : List (List Expr)}

theorem rfl : SameOuter ys ys := ⟨Eq.refl _, Iff.rfl⟩

theorem trans (h : SameOuter ys zs) (h' : SameOuter zs ws) : SameOuter ys ws :=
  ⟨h.1.trans h'.1, h.2.trans h'.2⟩

theorem eq_cons {found : List Expr} (h : SameOuter (found :: ys) zs) :
    ∃ found', zs = found' :: ys := by
  cases zs with
  | nil => simpa using h.2
  | cons found' zs => exact ⟨found', congrArg (found' :: ·) h.1.symm⟩

end SameOuter

namespace Lower

variable {α β : Type} {x : Call} {m n : Nat} {q q' : Prop} {f : α → List Call} {g : β → List Call}

/-- Running the action adds `n` copies of the call `x`, those in what it returns included. If `q`
holds, it yields nothing to a switch outside. -/
def Accounts (x : Call) (a : Lower α) (f : α → List Call) (n : Nat) (q : Prop) : Prop :=
  ∀ owner s, (f (a owner s).1).count x + (a owner s).2.calls.count x = s.calls.count x + n ∧
    SameOuter s.yields (a owner s).2.yields ∧ (q → (a owner s).2.yields = s.yields)

theorem Accounts.of_eq {a : Lower α} (h : Accounts x a f m q) (hn : m = n) : Accounts x a f n q :=
  hn ▸ h

theorem Accounts.mono {a : Lower α} (h : Accounts x a f n q) (hq : q' → q) :
    Accounts x a f n q' := fun owner s =>
  ⟨(h owner s).1, (h owner s).2.1, fun h' => (h owner s).2.2 (hq h')⟩

theorem accounts_pure {v : α} (h : (f v).count x = n) : Accounts x (pure v) f n q :=
  fun _ s => ⟨by rw [← h]; exact Nat.add_comm _ _, .rfl, fun _ => rfl⟩

def Returns (a : Lower α) (P : α → Prop) : Prop := ∀ owner s, P (a owner s).1

theorem Returns.bind {a : Lower α} {b : α → Lower β} {P : α → Prop} {Q : β → Prop}
    (ha : Returns a P) (hb : ∀ v, P v → Returns (b v) Q) : Returns (a >>= b) Q :=
  fun owner s => hb _ (ha owner s) owner (a owner s).2

theorem returns_pure {v : α} {P : α → Prop} (h : P v) : Returns (pure v) P := fun _ _ => h

theorem returns_foldlM {a : β → α → Lower β} {l : List α} {P : β → Prop}
    (h : ∀ v ∈ l, ∀ b, P b → Returns (a b v) P) {b : β} (hb : P b) : Returns (l.foldlM a b) P := by
  induction l generalizing b with
  | nil => exact returns_pure hb
  | cons v l ih =>
    rw [List.foldlM_cons]
    refine (h v List.mem_cons_self b hb).bind fun b' hb' => ?_
    exact ih (fun w hw => h w (List.mem_cons_of_mem v hw)) hb'

theorem returns_any (a : Lower α) : Returns a fun _ => True := fun _ _ => trivial

/-- After the first action, what it returned and the `rest` are still to be accounted for. -/
theorem Accounts.bind_of_returns {a : Lower α} {b : α → Lower β} {P : α → Prop} (rest : Nat)
    (ha : Accounts x a f m q) (hreturns : Returns a P)
    (hb : ∀ v, P v → Accounts x (b v) g ((f v).count x + rest) q) (hn : m + rest = n) :
    Accounts x (a >>= b) g n q := by
  intro owner s
  obtain ⟨hcount, houter, hquiet⟩ := ha owner s
  obtain ⟨hcount', houter', hquiet'⟩ := hb _ (hreturns owner s) owner (a owner s).2
  refine ⟨?_, houter.trans houter', fun hq => (hquiet' hq).trans (hquiet hq)⟩
  change (g (b (a owner s).1 owner (a owner s).2).1).count x +
    (b (a owner s).1 owner (a owner s).2).2.calls.count x = _
  omega

theorem Accounts.bind {a : Lower α} {b : α → Lower β} (rest : Nat) (ha : Accounts x a f m q)
    (hb : ∀ v, Accounts x (b v) g ((f v).count x + rest) q) (hn : m + rest = n) :
    Accounts x (a >>= b) g n q :=
  ha.bind_of_returns rest (returns_any a) (fun v _ => hb v) hn

/-- Only what the first action returned is still to be accounted for. -/
theorem Accounts.last {a : Lower α} {b : α → Lower β} (ha : Accounts x a f n q)
    (hb : ∀ v, Accounts x (b v) g ((f v).count x) q) : Accounts x (a >>= b) g n q :=
  ha.bind 0 hb (Nat.add_zero n)

/-- An action without calls in what it returns comes first. -/
theorem Accounts.next {a : Lower α} {b : α → Lower β} {rest : Nat}
    (ha : Accounts x a (fun _ => []) m q) (hb : ∀ v, Accounts x (b v) g rest q) :
    Accounts x (a >>= b) g (m + rest) q :=
  ha.bind rest (fun v => (hb v).of_eq (Nat.zero_add rest).symm) rfl

theorem Accounts.skip {a : Lower α} {b : α → Lower β} (ha : Accounts x a (fun _ => []) 0 q)
    (hb : ∀ v, Accounts x (b v) g n q) : Accounts x (a >>= b) g n q :=
  (ha.next hb).of_eq (Nat.zero_add n)

theorem accounts_modify {update : Lowered → Lowered}
    (h : ∀ s, (update s).types = s.types ∧ (update s).yields = s.yields) :
    Accounts x (modify update : Lower Unit) (fun _ => []) 0 q := by
  intro owner s
  obtain ⟨htypes, hyields⟩ := h s
  refine ⟨?_, ?_, fun _ => hyields⟩
  · change 0 + (update s).calls.count x = _
    rw [Lowered.calls, htypes, hyields, Nat.zero_add]
    rfl
  · change SameOuter s.yields (update s).yields
    rw [hyields]
    exact .rfl

theorem accounts_get : Accounts x get (fun _ => []) 0 q :=
  fun _ _ => ⟨Nat.zero_add _, .rfl, fun _ => rfl⟩

theorem accounts_read : Accounts x read (fun _ => []) 0 q :=
  fun _ _ => ⟨Nat.zero_add _, .rfl, fun _ => rfl⟩

theorem Accounts.inType {a : Lower α} (h : Accounts x a f n q) (name : String) :
    Accounts x (inType name a) f n q := fun _ s => h (some name) s

theorem accounts_mapM {a : α → Lower β} {l : List α} {n : α → Nat}
    (h : ∀ v ∈ l, Accounts x (a v) g (n v) q) :
    Accounts x (l.mapM a) (·.flatMap g) (l.map n).sum q := by
  induction l with
  | nil => exact accounts_pure rfl
  | cons v l ih =>
    rw [List.mapM_cons, List.map_cons, List.sum_cons]
    have hrest := ih fun w hw => h w (List.mem_cons_of_mem v hw)
    refine (h v List.mem_cons_self).bind (l.map n).sum (fun r => ?_) rfl
    refine hrest.bind ((g r).count x) (fun rs => accounts_pure ?_) (Nat.add_comm _ _)
    rw [List.flatMap_cons, List.count_append, Nat.add_comm]

theorem accounts_mapM_option {a : α → Lower β} {o : Option α} {n : α → Nat}
    (h : ∀ v ∈ o, Accounts x (a v) g (n v) q) :
    Accounts x (o.mapM a) (fun r => (r.map g).getD []) ((o.map n).getD 0) q := by
  cases o with
  | none => exact accounts_pure rfl
  | some v => exact (h v rfl).last fun r => accounts_pure rfl

/-- What is folded carries the calls that are found on the way. -/
theorem accounts_foldlM {a : β → α → Lower β} {l : List α} {n : α → Nat}
    (h : ∀ v ∈ l, ∀ b, Accounts x (a b v) g ((g b).count x + n v) q) (b : β) :
    Accounts x (l.foldlM a b) g ((g b).count x + (l.map n).sum) q := by
  induction l generalizing b with
  | nil => exact accounts_pure rfl
  | cons v l ih =>
    rw [List.foldlM_cons, List.map_cons, List.sum_cons]
    refine (h v List.mem_cons_self b).bind (l.map n).sum (fun b' => ?_) (Nat.add_assoc _ _ _)
    exact ih (fun w hw => h w (List.mem_cons_of_mem v hw)) b'

theorem accounts_forM {a : α → Lower Unit} {l : List α} {n : α → Nat}
    (h : ∀ v ∈ l, Accounts x (a v) (fun _ => []) (n v) q) :
    Accounts x (l.forM a) (fun _ => []) (l.map n).sum q := by
  induction l with
  | nil => exact accounts_pure rfl
  | cons v l ih =>
    have hrest := ih fun w hw => h w (List.mem_cons_of_mem v hw)
    rw [List.map_cons, List.sum_cons]
    exact (h v List.mem_cons_self).next fun _ => hrest

theorem accounts_concatM {a : α → Lower (List β)} {l : List α} {n : α → Nat}
    (h : ∀ v ∈ l, Accounts x (a v) (·.flatMap g) (n v) q) :
    Accounts x (concatM a l) (·.flatMap g) (l.map n).sum q := by
  refine (accounts_mapM h).last fun parts => accounts_pure ?_
  rw [List.flatten_eq_flatMap, List.flatMap_assoc]
  rfl

/-! ### Switches and types -/

theorem collectYields_run (a : Lower α) (owner : Option String) (s : Lowered) :
    collectYields a owner s =
      let r := a owner { s with yields := [] :: s.yields }
      ((r.1, r.2.yields.head?.getD []), { r.2 with yields := r.2.yields.tail }) := rfl

/-- Results that are collected are returned with the value of the action. -/
theorem accounts_collectYields {a : Lower α} (h : Accounts x a f n q) :
    Accounts x (collectYields a) (fun r => f r.1 ++ r.2.flatMap Expr.calls) n q' := by
  intro owner s
  obtain ⟨hcount, houter, -⟩ := h owner { s with yields := [] :: s.yields }
  obtain ⟨found, hfound⟩ := houter.eq_cons
  rw [collectYields_run]
  dsimp only
  rw [hfound]
  refine ⟨?_, .rfl, fun _ => rfl⟩
  simp only [Lowered.calls, hfound, List.count_append, List.flatMap_cons, List.head?_cons,
    Option.getD_some, List.tail_cons, List.flatMap_nil, List.count_nil] at hcount ⊢
  omega

/-- Where nothing is yielded to the outside, the results that are collected may be dropped. -/
theorem accounts_collectYields_quiet {a : Lower α} (h : Accounts x a f n q) (hq : q) :
    Accounts x (collectYields a) (fun r => f r.1) n q' := by
  intro owner s
  have hquiet := (h owner { s with yields := [] :: s.yields }).2.2 hq
  have hcollected : Accounts x (collectYields a) _ n q' := accounts_collectYields h
  obtain ⟨hcount, hrest⟩ := hcollected owner s
  refine ⟨?_, hrest⟩
  rw [collectYields_run] at hcount ⊢
  simpa [hquiet] using hcount

theorem accounts_addType (d : TypeDecl) :
    Accounts x (addType d) (fun _ => []) (d.calls.count x) q := by
  intro owner s
  have hrun : addType d owner s = ((), { s with types := s.types ++ [d] }) := rfl
  rw [hrun]
  refine ⟨?_, .rfl, fun _ => rfl⟩
  simp only [Lowered.calls, List.flatMap_append, List.flatMap_singleton, List.count_append,
    List.count_nil]
  omega

theorem accounts_yieldValue (e : Expr) :
    Accounts x (yieldValue e) (·.flatMap Stmt.calls) (e.calls.count x) False := by
  rintro owner ⟨package, types, anonymous, yields⟩
  cases yields with
  | nil =>
    have hrun : yieldValue e owner ⟨package, types, anonymous, []⟩ =
        ([.expr e], ⟨package, types, anonymous, []⟩) := rfl
    rw [hrun]
    refine ⟨?_, .rfl, False.elim⟩
    simp only [List.flatMap_singleton, Stmt.calls, Nat.add_comm]
  | cons found outer =>
    have hrun : yieldValue e owner ⟨package, types, anonymous, found :: outer⟩ =
        ([], ⟨package, types, anonymous, (found ++ [e]) :: outer⟩) := rfl
    rw [hrun]
    refine ⟨?_, ⟨rfl, by simp⟩, False.elim⟩
    simp only [Lowered.calls, List.flatMap_cons, List.flatMap_append, List.flatMap_nil,
      List.append_nil, List.count_append, List.count_nil]
    omega

end Lower

end JavaCallGraph
