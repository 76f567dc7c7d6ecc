import JavaCallGraph.Proofs.TreeNames
import JavaCallGraph.Unit.Lowering
import Mathlib.Algebra.BigOperators.Group.List.Basic
import Mathlib.Algebra.GroupWithZero.Nat
import Mathlib.Tactic.Set

/-!
# Calls in trees

A tree has a call for each of its nodes that is a method invocation. Lowering goes down from the
root and passes over some children: `Token.passes` lists them, and `passedOver` collects the calls
inside them. Every call of a tree is come to or passed over, and never both.
-/

namespace JavaCallGraph

structure Call where
  name : String
  line : Nat
  deriving DecidableEq, Repr

namespace Kind

/-- Nodes with one expression, which comments may surround. -/
def holdsExpr : Kind → Bool
  | .parenthesizedExpression | .returnStatement | .yieldStatement => true
  | _ => false

theorem eq_of_holdsExpr {kind : Kind} (h : kind.holdsExpr) : kind = .parenthesizedExpression ∨
    kind = .returnStatement ∨ kind = .yieldStatement := by
  unfold holdsExpr at h
  split at h <;> simp_all

def collectsYields : Kind → Bool
  | .lambdaExpression | .switchExpression => true
  | _ => false

/-- Nodes that may have a child that lowering passes over. -/
def hides : Kind → Bool
  | .program | .enumConstant | .switchLabel | .stringLiteral | .textBlock
  | .objectCreationExpression | .explicitConstructorInvocation | .methodInvocation | .fieldAccess
  | .parenthesizedExpression | .returnStatement | .yieldStatement => true
  | _ => false

end Kind

/-! ### Calls and what hides them -/

def Token.passes (t : Token) (children : List Token) (c : Token) : Bool :=
  match t.kind with
  -- Only the types of a file are read.
  | .program => !c.kind.isTypeDeclaration
  | .enumConstant => c.label == some .body
  | .switchLabel | .stringLiteral | .textBlock => true
  -- The outer object of a new one, and of the superclass when its constructor is called.
  | .objectCreationExpression => c.kind.isExpression
  | .explicitConstructorInvocation => c.label == some .object
  -- What stands before `.super` and before `.this` is read as the name of a type.
  | .methodInvocation => c.label == some .object &&
      (children.eraseP (·.label == some .object)).any (·.kind == .superKeyword)
  | .fieldAccess => c.label == some .object &&
      (children.find? (·.label == some .field)).any (·.kind == .thisKeyword)
  -- A comment in front is taken for the expression.
  | .parenthesizedExpression | .returnStatement | .yieldStatement =>
    (children.find? (·.isNamed)).any (·.kind.isComment)
  | _ => false

theorem Token.passes_eq_false {t : Token} (h : t.kind.hides = false) (children : List Token)
    (c : Token) : t.passes children c = false := by
  unfold passes
  split <;> simp_all [Kind.hides]

namespace Tree

variable {α β : Type}

theorem passes_holdsExpr {t : Token} (h : t.kind.holdsExpr) (cs : List (Tree α)) (c : Token) :
    t.passes (cs.map token) c = (named cs).head?.any (·.kind.isComment) := by
  have hfirst : (cs.map token).find? (·.isNamed) = (named cs).head?.map token := by
    rw [List.find?_map, named, List.head?_filter]
    rfl
  have hpasses : t.passes (cs.map token) c =
      ((cs.map token).find? (·.isNamed)).any (·.kind.isComment) := by
    rcases Kind.eq_of_holdsExpr h with h | h | h <;> rw [Token.passes, h]
  rw [hpasses, hfirst, Option.any_map]
  rfl

def ownCalls (t : Token) (cs : List (Tree α)) : List Call :=
  if t.kind = .methodInvocation then [⟨((first? .name cs).map text).getD "", t.row + 1⟩] else []

theorem ownCalls_eq_nil {t : Tree α} (h : t.kind ≠ .methodInvocation) :
    ownCalls t.token t.children = [] := if_neg h

def callMark (t : Token) (cs : List (Tree (List Call))) : List Call :=
  ownCalls t cs ++ cs.flatMap mark

def calls (t : Tree α) : List Call := (t.annotate callMark).mark

def passed (t : Token) (cs : List (Tree α)) : List (Tree α) :=
  cs.filter fun c => t.passes (cs.map token) c.token

def entered (t : Token) (cs : List (Tree α)) : List (Tree α) :=
  cs.filter fun c => !t.passes (cs.map token) c.token

def passedMark (t : Token) (cs : List (Tree (List Call))) : List Call :=
  (passed t cs).flatMap calls ++ (entered t cs).flatMap mark

/-- The calls inside children that lowering passes over. -/
def passedOver (t : Tree α) : List Call := (t.annotate passedMark).mark

def enteredMark (t : Token) (cs : List (Tree (List Call))) : List Call :=
  ownCalls t cs ++ (entered t cs).flatMap mark

/-- The calls that lowering comes to. -/
def enteredCalls (t : Tree α) : List Call := (t.annotate enteredMark).mark

def yieldMark (t : Token) (cs : List (Tree Bool)) : Bool :=
  t.kind == .yieldStatement ||
    (cs.filter fun c => !t.kind.collectsYields || c.token.label != some .body).any mark

/-- Whether a `yield` inside the node gives its result to a switch outside it. -/
def yieldsOut (t : Tree α) : Bool := (t.annotate yieldMark).mark

section Annotate

variable (f : Token → List (Tree β) → β)

@[simp] theorem mark_annotate (t : Tree α) :
    (t.annotate f).mark = f t.token (t.children.map (annotate f)) := by
  cases t with
  | node t m cs => rw [annotate, mark, annotateAll_eq_map, token, children]

@[simp] theorem labelled_map_annotate (label : Label) (cs : List (Tree α)) :
    labelled label (cs.map (annotate f)) = (labelled label cs).map (annotate f) := by
  simp [labelled, List.filter_map, Function.comp_def]

@[simp] theorem ownCalls_map_annotate (t : Token) (cs : List (Tree α)) :
    ownCalls t (cs.map (annotate f)) = ownCalls t cs := by
  simp [ownCalls, Function.comp_def]

@[simp] theorem entered_map_annotate (t : Token) (cs : List (Tree α)) :
    entered t (cs.map (annotate f)) = (entered t cs).map (annotate f) := by
  simp [entered, List.filter_map, Function.comp_def]

@[simp] theorem passed_map_annotate (t : Token) (cs : List (Tree α)) :
    passed t (cs.map (annotate f)) = (passed t cs).map (annotate f) := by
  simp [passed, List.filter_map, Function.comp_def]

@[simp] theorem calls_annotate (t : Tree α) : (t.annotate f).calls = t.calls := by
  rw [calls, annotate_annotate, calls]

@[simp] theorem enteredCalls_annotate (t : Tree α) :
    (t.annotate f).enteredCalls = t.enteredCalls := by
  rw [enteredCalls, annotate_annotate, enteredCalls]

@[simp] theorem yieldsOut_annotate (t : Tree α) : (t.annotate f).yieldsOut = t.yieldsOut := by
  rw [yieldsOut, annotate_annotate, yieldsOut]

@[simp] theorem hasChild_annotate (t : Tree α) (kind : Kind) :
    (t.annotate f).hasChild kind = t.hasChild kind := by
  simp [hasChild, Function.comp_def]

end Annotate

theorem calls_eq (t : Tree α) :
    t.calls = ownCalls t.token t.children ++ t.children.flatMap calls := by
  rw [calls, mark_annotate, callMark, ownCalls_map_annotate, List.flatMap_map]
  rfl

theorem enteredCalls_eq (t : Tree α) : t.enteredCalls =
    ownCalls t.token t.children ++ (entered t.token t.children).flatMap enteredCalls := by
  rw [enteredCalls, mark_annotate, enteredMark, ownCalls_map_annotate, entered_map_annotate,
    List.flatMap_map]
  rfl

theorem passedOver_eq (t : Tree α) : t.passedOver =
    (passed t.token t.children).flatMap calls ++
      (entered t.token t.children).flatMap passedOver := by
  rw [passedOver, mark_annotate, passedMark, passed_map_annotate, entered_map_annotate,
    List.flatMap_map, List.flatMap_map]
  simp only [calls_annotate]
  rfl

/-- What holds of a node when it holds of its children holds of every tree. -/
theorem induction {P : Tree α → Prop} (step : ∀ t : Tree α, (∀ c ∈ t.children, P c) → P t)
    (t : Tree α) : P t := by
  induction hsize : sizeOf t using Nat.strong_induction_on generalizing t with
  | h size ih =>
    refine step t fun c hc => ih (sizeOf c) ?_ c rfl
    rw [← hsize]
    cases t with
    | node token mark cs =>
      have hlt := List.sizeOf_lt_of_mem (show c ∈ cs from hc)
      rw [Tree.node.sizeOf_spec]
      omega

/-- Every call of a tree is come to or passed over. -/
theorem calls_perm (t : Tree α) : t.calls.Perm (t.enteredCalls ++ t.passedOver) := by
  induction t using induction with
  | step t ih =>
    rw [calls_eq, enteredCalls_eq, passedOver_eq, List.append_assoc]
    refine List.Perm.append_left _ ?_
    set below := entered t.token t.children with hbelow
    have hsplit : (passed t.token t.children ++ below).Perm t.children :=
      List.filter_append_perm _ _
    have hinner : (below.flatMap calls).Perm
        (below.flatMap enteredCalls ++ below.flatMap passedOver) := by
      refine (List.Perm.flatMap_left _ fun c hc => ih c ?_).trans
        (List.flatMap_append_perm _ _ _).symm
      exact (List.mem_filter.mp hc).1
    refine (hsplit.symm.flatMap_right calls).trans ?_
    rw [List.flatMap_append]
    exact (hinner.append_left _).trans (List.perm_append_comm_assoc _ _ _)

/-! ### Counting a call -/

/-- How often lowering comes to the call `x` in the tree. -/
def tally (x : Call) (t : Tree α) : Nat := t.enteredCalls.count x

@[simp] theorem tally_annotate (x : Call) (f : Token → List (Tree β) → β) (t : Tree α) :
    (t.annotate f).tally x = t.tally x := by simp [tally]

def share (x : Call) (t : Token) (cs : List (Tree α)) (c : Tree α) : Nat :=
  if t.passes (cs.map token) c.token then 0 else c.tally x

theorem tally_eq (x : Call) (t : Tree α) : t.tally x =
    (ownCalls t.token t.children).count x +
      (t.children.map (share x t.token t.children)).sum := by
  have hbelow : (entered t.token t.children).map (List.count x ∘ enteredCalls) =
      (entered t.token t.children).map (tally x) := rfl
  rw [tally, enteredCalls_eq, List.count_append, List.count_flatMap, hbelow]
  unfold share
  rw [List.sum_map_ite]
  simp [entered]

theorem calls_eq_nil_of_mem {t c : Tree α} (h : t.calls = []) (hc : c ∈ t.children) :
    c.calls = [] := by
  rw [calls_eq, List.append_eq_nil_iff, List.flatMap_eq_nil_iff] at h
  exact h.2 c hc

theorem tally_eq_zero {x : Call} {t : Tree α} (h : t.calls = []) : t.tally x = 0 := by
  have hnone := List.nil_perm.mp (h ▸ t.calls_perm)
  rw [tally, (List.append_eq_nil_iff.mp hnone).1, List.count_nil]

/-- Nothing counts in a node that is no call and passes over all its children. -/
theorem tally_of_closed {x : Call} {t : Tree α} (hcall : t.kind ≠ .methodInvocation)
    (h : ∀ c : Token, t.token.passes (t.children.map token) c) : t.tally x = 0 := by
  have hshare : share x t.token t.children = fun _ => 0 := by
    funext c
    rw [share, h, if_pos rfl]
  rw [tally_eq, ownCalls_eq_nil hcall, hshare]
  simp

theorem share_eq_zero {x : Call} {t : Token} {cs : List (Tree α)} {c : Tree α}
    (h : c.calls = []) : share x t cs c = 0 := by
  unfold share
  split
  · rfl
  · exact tally_eq_zero h

/-- A node that hides nothing is no call, and all its children count. -/
theorem tally_of_open {x : Call} {t : Tree α} (h : t.kind.hides = false) :
    t.tally x = (t.children.map (tally x)).sum := by
  have hcall : t.kind ≠ .methodInvocation := by
    intro hcall
    rw [hcall] at h
    cases h
  have hshare : share x t.token t.children = tally x := by
    funext c
    rw [share, Token.passes_eq_false h, if_neg Bool.false_ne_true]
  rw [tally_eq, ownCalls_eq_nil hcall, hshare, List.count_nil, Nat.zero_add]

/-- A `yield` of a child leaves the node, unless the child is the body of a lambda expression or of
a switch. -/
theorem yieldsOut_of_mem {t c : Tree α} (h : t.yieldsOut = false) (hc : c ∈ t.children)
    (hbody : t.kind.collectsYields = false ∨ c.token.label ≠ some .body) :
    c.yieldsOut = false := by
  have hmem : c.annotate yieldMark ∈ t.children.map (annotate yieldMark) := List.mem_map_of_mem hc
  rw [yieldsOut, mark_annotate, yieldMark, Bool.or_eq_false_iff] at h
  refine Bool.eq_false_iff.mpr (List.any_eq_false.mp h.2 _ (List.mem_filter.mpr ⟨hmem, ?_⟩))
  simpa [kind] using hbody

theorem yieldsOut_of_yield {t : Tree α} (h : t.kind = .yieldStatement) : t.yieldsOut = true := by
  rw [yieldsOut, mark_annotate, yieldMark, show t.token.kind = _ from h]
  rfl

end Tree

end JavaCallGraph
