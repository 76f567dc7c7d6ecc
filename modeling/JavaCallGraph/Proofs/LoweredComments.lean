import JavaCallGraph.Proofs.LoweredCalls
import JavaCallGraph.Proofs.PrunedTrees

/-!
# Files without some of their comments

Lowering gives comments no meaning: what it does with them where it comes to them leaves no trace.
So a file is lowered to the same unit when comments are dropped from its tree, except from places
where lowering takes a child without looking at its kind.
-/

namespace JavaCallGraph

namespace Lower

open JavaCallGraph.Tree

/-! ### Children before and after -/

def before (cs : List (Tree Bool)) : List Marked := cs.map (annotate meaning)

def after (cs : List (Tree Bool)) : List Marked := ((kept cs).map prune).map (annotate meaning)

/-- The node means the same when flagged nodes are dropped below it. -/
def Agrees (t : Tree Bool) : Prop := (t.prune.annotate meaning).mark = (t.annotate meaning).mark

structure Spared (cs : List (Tree Bool)) : Prop where
  comments : ∀ c ∈ cs, c.mark → c.IsComment
  prunable : ∀ c ∈ cs, c.Everywhere Prunable
  agrees : ∀ c ∈ cs, c.Everywhere Agrees

variable {cs : List (Tree Bool)} {c : Tree Bool} {γ δ : Type}

theorem children_annotate_prune (c : Tree Bool) :
    (c.prune.annotate meaning).children = after c.children := by
  rw [children_annotate, children_prune, after]

theorem children_annotate_before (c : Tree Bool) :
    (c.annotate meaning).children = before c.children := by
  rw [children_annotate, before]

theorem named_after (cs : List (Tree Bool)) : named (after cs) = after (named cs) := by
  rw [after, named_map_annotate, named_map_prune, after]

theorem named_before (cs : List (Tree Bool)) : named (before cs) = before (named cs) := by
  rw [before, named_map_annotate, before]

/-! ### Actions that come to comments -/

theorem after_cons (c : Tree Bool) (cs : List (Tree Bool)) :
    after (c :: cs) = if c.mark then after cs else c.prune.annotate meaning :: after cs := by
  cases hmark : c.mark <;> simp [after, kept, hmark]

theorem before_cons (c : Tree Bool) (cs : List (Tree Bool)) :
    before (c :: cs) = c.annotate meaning :: before cs := rfl

/-- Comments can be left out of a list of actions if the rest does not look at what is returned for
them. -/
theorem mapM_after_bind {f : Marked → Lower γ} {e : γ} {rest : List γ → Lower δ}
    (hsame : ∀ c ∈ cs, f (c.prune.annotate meaning) = f (c.annotate meaning))
    (hdrop : ∀ c ∈ cs, c.mark → f (c.annotate meaning) = pure e)
    (hrest : ∀ front back, rest (front ++ e :: back) = rest (front ++ back)) :
    (after cs).mapM f >>= rest = (before cs).mapM f >>= rest := by
  induction cs generalizing rest with
  | nil => rfl
  | cons c cs ih =>
    have hsame' := fun d hd => hsame d (List.mem_cons_of_mem c hd)
    have hdrop' := fun d hd => hdrop d (List.mem_cons_of_mem c hd)
    rw [after_cons, before_cons]
    cases hmark : c.mark with
    | true =>
      simp only [if_true, List.mapM_cons, hdrop c List.mem_cons_self hmark, pure_bind, bind_assoc]
      rw [ih hsame' hdrop' hrest]
      exact bind_congr fun results => (hrest [] results).symm
    | false =>
      simp only [Bool.false_eq_true, if_false, List.mapM_cons, hsame c List.mem_cons_self,
        bind_assoc, pure_bind]
      exact bind_congr fun result => ih hsame' hdrop' fun front back => hrest (result :: front) back

theorem mapM_map_prune {f : Marked → Lower γ}
    (hsame : ∀ c ∈ cs, f (c.prune.annotate meaning) = f (c.annotate meaning)) :
    ((cs.map prune).map (annotate meaning)).mapM f = (cs.map (annotate meaning)).mapM f := by
  induction cs with
  | nil => rfl
  | cons c cs ih =>
    have ih := ih fun d hd => hsame d (List.mem_cons_of_mem c hd)
    simp only [List.map_cons, List.mapM_cons, hsame c List.mem_cons_self, ih]

theorem foldlM_after {f : δ → Marked → Lower δ}
    (hsame : ∀ c ∈ cs, ∀ d, f d (c.prune.annotate meaning) = f d (c.annotate meaning))
    (hdrop : ∀ c ∈ cs, c.mark → ∀ d, f d (c.annotate meaning) = pure d) (d : δ) :
    (after cs).foldlM f d = (before cs).foldlM f d := by
  induction cs generalizing d with
  | nil => rfl
  | cons c cs ih =>
    have ih := ih (fun d hd => hsame d (List.mem_cons_of_mem c hd))
      (fun d hd => hdrop d (List.mem_cons_of_mem c hd))
    rw [after_cons, before_cons]
    cases hmark : c.mark with
    | true => simp only [if_true, List.foldlM_cons, hdrop c List.mem_cons_self hmark, pure_bind, ih]
    | false =>
      simp only [Bool.false_eq_true, if_false, List.foldlM_cons, hsame c List.mem_cons_self, ih]

theorem forM_after {f : Marked → Lower Unit}
    (hsame : ∀ c ∈ cs, f (c.prune.annotate meaning) = f (c.annotate meaning))
    (hdrop : ∀ c ∈ cs, c.mark → f (c.annotate meaning) = pure ()) :
    (after cs).forM f = (before cs).forM f := by
  induction cs with
  | nil => rfl
  | cons c cs ih =>
    have ih := ih (fun d hd => hsame d (List.mem_cons_of_mem c hd))
      (fun d hd => hdrop d (List.mem_cons_of_mem c hd))
    rw [after_cons, before_cons]
    change _ = f (c.annotate meaning) >>= fun _ => (before cs).forM f
    cases hmark : c.mark with
    | true => rw [if_pos rfl, hdrop c List.mem_cons_self hmark, pure_bind, ih]
    | false =>
      rw [if_neg Bool.false_ne_true, ← hsame c List.mem_cons_self]
      exact bind_congr fun _ => ih

theorem first?_before (cs : List (Tree Bool)) (label : Label) :
    first? label (before cs) = (first? label cs).map (annotate meaning) := by
  rw [before, first?_map_annotate]

namespace Spared

theorem subset (h : Spared cs) {ds : List (Tree Bool)} (hds : ∀ d ∈ ds, d ∈ cs) : Spared ds where
  comments d hd := h.comments d (hds d hd)
  prunable d hd := h.prunable d (hds d hd)
  agrees d hd := h.agrees d (hds d hd)

theorem named (h : Spared cs) : Spared (named cs) :=
  h.subset fun _ hd => (List.mem_filter.mp hd).1

theorem below (h : Spared cs) (hc : c ∈ cs) : Spared c.children where
  comments := (h.prunable c hc).self.comments
  prunable _ hd := (h.prunable c hc).children hd
  agrees _ hd := (h.agrees c hc).children hd

theorem first?_after (h : Spared cs) (label : Label) :
    first? label (after cs) = (first? label cs).map fun c => c.prune.annotate meaning := by
  rw [after, first?_map_annotate, first?_map_prune h.comments, Option.map_map]
  rfl

/-- What is read off a child under a label stays, if it stays for every child. -/
theorem congr_first? (h : Spared cs) (label : Label) {F : Option Marked → γ}
    (hF : ∀ c ∈ cs, c.token.label = some label →
      F (some (c.prune.annotate meaning)) = F (some (c.annotate meaning))) :
    F (first? label (after cs)) = F (first? label (before cs)) := by
  rw [h.first?_after, first?_before]
  cases hfirst : first? label cs with
  | none => rfl
  | some c =>
    have hlabel : c.token.label = some label := by simpa using List.find?_some hfirst
    exact hF c (List.mem_of_find?_eq_some hfirst) hlabel

theorem mark (h : Spared cs) (hc : c ∈ cs) :
    (c.prune.annotate meaning).mark = (c.annotate meaning).mark :=
  (h.agrees c hc).self

theorem exprOr_first? (h : Spared cs) (label : Label) :
    exprOr (first? label (after cs)) = exprOr (first? label (before cs)) :=
  h.congr_first? label fun _ hc _ => congrArg Meaning.expr (h.mark hc)

theorem mapM_first? (h : Spared cs) (label : Label) :
    (first? label (after cs)).mapM (·.mark.expr) = (first? label (before cs)).mapM (·.mark.expr) :=
  h.congr_first? label fun _ hc _ => by simp only [Option.mapM_some, h.mark hc]

theorem text_first? (h : Spared cs) (label : Label) :
    (first? label (after cs)).map text = (first? label (before cs)).map text :=
  h.congr_first? label fun _ _ _ => by simp

theorem dimsOf_after (h : Spared cs) (missing : Nat) :
    dimsOf (after cs) missing = dimsOf (before cs) missing := by
  have hdims : (first? .dimensions (after cs)).map (countDims ·.text) =
      (first? .dimensions (before cs)).map (countDims ·.text) :=
    h.congr_first? .dimensions fun c _ _ => by simp
  unfold dimsOf
  rw [hdims]

theorem typeRef_first? (h : Spared cs) (label : Label) :
    (first? label (after cs)).map typeRef = (first? label (before cs)).map typeRef :=
  h.congr_first? label fun c hc _ => by simp [typeRef_prune (h.prunable c hc)]

/-! ### Lists of children -/

/-- Children of kinds other than comments. -/
theorem filter_after (h : Spared cs) (kinds : Kind → Bool) (hline : kinds .lineComment = false)
    (hblock : kinds .blockComment = false) : (after cs).filter (fun c => kinds c.kind) =
      ((cs.filter fun c => kinds c.kind).map prune).map (annotate meaning) := by
  rw [after, ← filter_kind_map_prune h.comments kinds hline hblock]
  simp [List.filter_map, Function.comp_def]

theorem filter_before (kinds : Kind → Bool) : (before cs).filter (fun c => kinds c.kind) =
    (cs.filter fun c => kinds c.kind).map (annotate meaning) := by
  simp [before, List.filter_map, Function.comp_def]

theorem exprs_map (h : Spared cs) :
    exprs ((cs.map prune).map (annotate meaning)) = exprs (cs.map (annotate meaning)) :=
  mapM_map_prune fun _ hc => congrArg Meaning.expr (h.mark hc)

theorem exprs_filter (h : Spared cs) (kinds : Kind → Bool) (hline : kinds .lineComment = false)
    (hblock : kinds .blockComment = false) :
    exprs ((after cs).filter fun c => kinds c.kind) =
      exprs ((before cs).filter fun c => kinds c.kind) := by
  rw [h.filter_after kinds hline hblock, filter_before]
  exact (h.subset fun _ hd => (List.mem_filter.mp hd).1).exprs_map

theorem innerExprs_after (h : Spared cs) : innerExprs (after cs) = innerExprs (before cs) := by
  rw [innerExprs, named_after, h.named.exprs_filter Kind.isExpression rfl rfl, innerExprs,
    named_before]

/-- Where no child is dropped, all are lowered as before. -/
theorem exprs_named (h : Spared cs) (hspared : ∀ c ∈ Tree.named cs, c.mark = false) :
    exprs (Tree.named (after cs)) = exprs (Tree.named (before cs)) := by
  rw [named_after, after, kept_eq_self hspared, named_before]
  exact h.named.exprs_map

theorem head?_named_after (hspared : ∀ c ∈ (Tree.named cs).head?.toList, c.mark = false) :
    (Tree.named (after cs)).head? =
      (Tree.named cs).head?.map fun c => c.prune.annotate meaning := by
  rw [named_after, after, List.head?_map, List.head?_map, head?_kept hspared, Option.map_map]
  rfl

theorem head?_named_before :
    (Tree.named (before cs)).head? = (Tree.named cs).head?.map (annotate meaning) := by
  rw [named_before, before, List.head?_map]

/-- What is read off the first named child stays, if that child stays. -/
theorem head?_named (hspared : ∀ c ∈ (Tree.named cs).head?.toList, c.mark = false)
    {F : Option Marked → γ}
    (hF : ∀ c ∈ cs, F (some (c.prune.annotate meaning)) = F (some (c.annotate meaning))) :
    F (Tree.named (after cs)).head? = F (Tree.named (before cs)).head? := by
  rw [head?_named_after hspared, head?_named_before]
  cases hhead : (Tree.named cs).head? with
  | none => rfl
  | some c => exact hF c (List.mem_filter.mp (List.mem_of_head? hhead)).1

theorem find?_named_after (h : Spared cs) (kinds : Kind → Bool)
    (hline : kinds .lineComment = false) (hblock : kinds .blockComment = false) :
    (Tree.named (after cs)).find? (fun c => kinds c.kind) =
      ((Tree.named cs).find? fun c => kinds c.kind).map fun c => c.prune.annotate meaning := by
  rw [named_after, ← List.head?_filter, h.named.filter_after kinds hline hblock, List.head?_map,
    List.head?_map, List.head?_filter, Option.map_map]
  rfl

theorem find?_named_before (kinds : Kind → Bool) :
    (Tree.named (before cs)).find? (fun c => kinds c.kind) =
      ((Tree.named cs).find? fun c => kinds c.kind).map (annotate meaning) := by
  rw [named_before, ← List.head?_filter, filter_before, List.head?_map, List.head?_filter]

theorem find?_named (h : Spared cs) (kinds : Kind → Bool) (hline : kinds .lineComment = false)
    (hblock : kinds .blockComment = false) {F : Option Marked → γ} (hF : ∀ c ∈ cs, kinds c.kind →
      F (some (c.prune.annotate meaning)) = F (some (c.annotate meaning))) :
    F ((Tree.named (after cs)).find? fun c => kinds c.kind) =
      F ((Tree.named (before cs)).find? fun c => kinds c.kind) := by
  rw [h.find?_named_after kinds hline hblock, find?_named_before]
  cases hfound : (Tree.named cs).find? fun c => kinds c.kind with
  | none => rfl
  | some c =>
    have hkind : kinds c.kind := List.find?_some (p := fun c : Tree Bool => kinds c.kind) hfound
    exact hF c (List.mem_filter.mp (List.mem_of_find?_eq_some hfound)).1 hkind

theorem any_after (h : Spared cs) (kinds : Kind → Bool) (hline : kinds .lineComment = false)
    (hblock : kinds .blockComment = false) :
    (after cs).any (fun c => kinds c.kind) = (before cs).any fun c => kinds c.kind := by
  simp only [after, before, List.any_map, Function.comp_def, kind_annotate]
  have hany := any_kind_map_prune h.comments kinds hline hblock
  simpa only [List.any_map, Function.comp_def] using hany

/-! ### Expressions -/

theorem stmts_comment (h : Spared cs) (hc : c ∈ cs) (hmark : c.mark) :
    (c.annotate meaning).mark.stmts = pure [] := by
  rw [mark_annotate]
  change stmtsMeaning c.token _ _ = _
  rcases Kind.eq_of_isComment (h.comments c hc hmark).kind with hkind | hkind <;>
    rw [stmtsMeaning, show c.token.kind = _ from hkind]

theorem concatM_stmts (h : Spared cs) :
    concatM (·.mark.stmts) (after cs) = concatM (·.mark.stmts) (before cs) := by
  refine mapM_after_bind (fun c hc => congrArg Meaning.stmts (h.mark hc))
    (fun c hc hmark => h.stmts_comment hc hmark) fun front back => ?_
  simp

theorem concatM_filter (h : Spared cs) (kinds : Kind → Bool) :
    concatM (·.mark.stmts) ((after cs).filter fun c => kinds c.kind) =
      concatM (·.mark.stmts) ((before cs).filter fun c => kinds c.kind) := by
  have hafter : (after cs).filter (fun c => kinds c.kind) =
      after (cs.filter fun c => kinds c.kind) := by
    rw [after, after, ← filter_comm_kept]
    simp [List.filter_map, Function.comp_def]
  rw [hafter, filter_before]
  exact (h.subset fun _ hd => (List.mem_filter.mp hd).1).concatM_stmts

theorem block_after (h : Spared cs) (hc : c ∈ cs) :
    block (c.prune.annotate meaning) = block (c.annotate meaning) := by
  unfold block
  rw [kind_annotate, kind_prune, kind_annotate, h.mark hc, namedChildren, children_annotate_prune,
    named_after, namedChildren, children_annotate_before, named_before,
    (h.below hc).named.concatM_stmts]

theorem arguments_after (h : Spared cs) (hc : c ∈ cs) :
    arguments (some (c.prune.annotate meaning)) = arguments (some (c.annotate meaning)) := by
  unfold arguments
  dsimp only
  rw [namedChildren, children_annotate_prune, named_after, namedChildren, children_annotate_before,
    named_before]
  exact (h.below hc).named.exprs_filter (!·.isComment) rfl rfl

theorem arguments_first? (h : Spared cs) (label : Label) :
    arguments (first? label (after cs)) = arguments (first? label (before cs)) :=
  h.congr_first? label fun _ hc _ => h.arguments_after hc

theorem any_eraseP_after (h : Spared cs) (label : Label) (kinds : Kind → Bool)
    (hline : kinds .lineComment = false) (hblock : kinds .blockComment = false) :
    ((after cs).eraseP (·.token.label == some label)).any (fun c => kinds c.kind) =
      ((before cs).eraseP (·.token.label == some label)).any fun c => kinds c.kind := by
  induction cs with
  | nil => rfl
  | cons c cs ih =>
    have hcs := h.subset fun _ hd => List.mem_cons_of_mem c hd
    have ih := ih hcs
    rw [after_cons, before_cons, List.eraseP_cons, token_annotate]
    cases hmark : c.mark with
    | true =>
      have hcomment := h.comments c List.mem_cons_self hmark
      have hkind := kinds_eq_false h.comments kinds hline hblock c List.mem_cons_self hmark
      simp [hcomment.label, hkind, ih]
    | false =>
      rw [if_neg Bool.false_ne_true, List.eraseP_cons, token_annotate, token_prune]
      cases c.token.label == some label with
      | true => exact hcs.any_after kinds hline hblock
      | false => simp [ih]

theorem receiver_after (h : Spared cs) : receiver (after cs) = receiver (before cs) := by
  unfold receiver
  rw [h.any_eraseP_after .object (· == .superKeyword) rfl rfl, h.first?_after, first?_before]
  cases hobject : first? .object cs with
  | none => rfl
  | some object => simp [h.mark (List.mem_of_find?_eq_some hobject)]

theorem fieldAccess_after (h : Spared cs) : fieldAccess (after cs) = fieldAccess (before cs) := by
  unfold fieldAccess
  rw [h.innerExprs_after, h.first?_after, h.first?_after, first?_before, first?_before]
  cases hobject : first? .object cs with
  | none => rfl
  | some object =>
    cases first? .field cs with
    | none => rfl
    | some field => simp [h.mark (List.mem_of_find?_eq_some hobject)]

theorem arrayPart_after (h : Spared cs) (hc : c ∈ cs) :
    arrayPart (c.prune.annotate meaning) = arrayPart (c.annotate meaning) := by
  unfold arrayPart
  rw [children_annotate_prune, (h.below hc).innerExprs_after, children_annotate_before]
  simp

theorem arrayPart_comment (h : Spared cs) (hc : c ∈ cs) (hmark : c.mark) :
    arrayPart (c.annotate meaning) = pure (0, []) := by
  unfold arrayPart
  rw [kind_annotate]
  rcases Kind.eq_of_isComment (h.comments c hc hmark).kind with hkind | hkind <;> rw [hkind]

theorem params_after (h : Spared cs) (hc : c ∈ cs) :
    params (some (c.prune.annotate meaning)) = params (some (c.annotate meaning)) := by
  have hparams := params_prune (h.prunable c hc)
  rwa [← params_map_annotate meaning (some c.prune), ← params_map_annotate meaning (some c)]
    at hparams

theorem params_first? (h : Spared cs) (label : Label) :
    params (first? label (after cs)) = params (first? label (before cs)) :=
  h.congr_first? label fun _ hc _ => h.params_after hc

theorem lambdaParams_first? (h : Spared cs) (label : Label) :
    lambdaParams (first? label (after cs)) = lambdaParams (first? label (before cs)) := by
  refine h.congr_first? label fun c hc _ => ?_
  unfold lambdaParams
  dsimp only
  rw [h.params_after hc, kind_annotate, kind_prune, kind_annotate, text_annotate, text_prune,
    text_annotate]

theorem methodRefReceiver_after (h : Spared cs)
    (hspared : ∀ c ∈ (Tree.named cs).head?.toList, c.mark = false) :
    methodRefReceiver (after cs) = methodRefReceiver (before cs) := by
  unfold methodRefReceiver
  rw [head?_named_after hspared, head?_named_before]
  cases hhead : (Tree.named cs).head? with
  | none => rfl
  | some c => simp [h.named.mark (List.mem_of_head? hhead)]

theorem lastText_after (h : Spared cs) (kinds : Kind → Bool) (hline : kinds .lineComment = false)
    (hblock : kinds .blockComment = false) :
    ((after cs).reverse.find? fun c => kinds c.kind).map text =
      ((before cs).reverse.find? fun c => kinds c.kind).map text := by
  rw [← List.head?_filter, List.filter_reverse, List.head?_reverse, ← List.getLast?_map,
    h.filter_after kinds hline hblock, ← List.head?_filter, List.filter_reverse, List.head?_reverse,
    ← List.getLast?_map, filter_before]
  simp [Function.comp_def]

theorem methodRefName_after (h : Spared cs)
    (hspared : ∀ c ∈ (Tree.named cs).head?.toList, c.mark = false) :
    methodRefName (after cs) = methodRefName (before cs) := by
  have htail : (after (Tree.named cs)).tail = after (Tree.named cs).tail := by
    cases hnamed : Tree.named cs with
    | nil => rfl
    | cons c ds =>
      rw [after_cons, if_neg, List.tail_cons, List.tail_cons]
      simp [hspared c (by simp [hnamed])]
  have htail' : (before (Tree.named cs)).tail = before (Tree.named cs).tail :=
    List.map_tail.symm
  have hlast := (h.named.subset fun _ hd => List.mem_of_mem_tail hd).lastText_after
    (· == .identifier) rfl rfl
  unfold methodRefName
  rw [h.any_after (· == .newKeyword) rfl rfl, named_after, htail, named_before, htail', hlast]

theorem anonymousClass_after (h : Spared cs) (hc : c ∈ cs) (type : TypeRef) :
    anonymousClass type (c.prune.annotate meaning) = anonymousClass type (c.annotate meaning) := by
  unfold anonymousClass
  rw [h.mark hc, line, line, token_annotate, token_prune, token_annotate]

theorem anonymousClass_find? (h : Spared cs) (type : TypeRef) :
    ((Tree.named (after cs)).find? (·.kind == .classBody)).mapM (anonymousClass type) =
      ((Tree.named (before cs)).find? (·.kind == .classBody)).mapM (anonymousClass type) :=
  h.find?_named (· == .classBody) rfl rfl fun c hc _ => by
    simp only [Option.mapM_some, h.anonymousClass_after hc]

theorem armPart_after (h : Spared cs) (hc : c ∈ cs) (isRule : Bool) :
    armPart isRule (c.prune.annotate meaning) = armPart isRule (c.annotate meaning) := by
  unfold armPart
  rw [h.mark hc, kind_annotate, kind_prune, kind_annotate, namedChildren, children_annotate_prune,
    namedChildren, children_annotate_before]
  by_cases hkind : c.kind = .expressionStatement
  · rw [(h.below hc).exprs_named fun d hd => (h.prunable c hc).self.spared_of_kind hkind hd]
  · simp [hkind]

theorem armPart_comment (h : Spared cs) (hc : c ∈ cs) (hmark : c.mark) (isRule : Bool) :
    armPart isRule (c.annotate meaning) = pure ([], []) := by
  unfold armPart
  rw [h.stmts_comment hc hmark, kind_annotate]
  rcases Kind.eq_of_isComment (h.comments c hc hmark).kind with hkind | hkind <;>
    simp [hkind]

theorem switchArm_after (h : Spared cs) (hc : c ∈ cs) :
    switchArm (c.prune.annotate meaning) = switchArm (c.annotate meaning) := by
  unfold switchArm
  rw [kind_annotate, kind_prune, kind_annotate, namedChildren, children_annotate_prune, named_after,
    namedChildren, children_annotate_before, named_before]
  have hparts := (h.below hc).named
  exact mapM_after_bind (fun d hd => hparts.armPart_after hd _)
    (fun d hd hmark => hparts.armPart_comment hd hmark _) fun front back => by simp

theorem switchArm_comment (h : Spared cs) (hc : c ∈ cs) (hmark : c.mark) :
    switchArm (c.annotate meaning) = pure ([], []) := by
  have hleaf : c.namedChildren = [] := by
    rw [namedChildren, (h.comments c hc hmark).children]
    rfl
  simp [switchArm, hleaf]

theorem switchExpr_after (h : Spared cs) : switchExpr (after cs) = switchExpr (before cs) := by
  unfold switchExpr
  rw [h.exprOr_first?, h.first?_after .body, first?_before cs .body]
  cases hbody : first? .body cs with
  | none => rfl
  | some body =>
    have harms := (h.below (List.mem_of_find?_eq_some hbody)).named
    simp only [Option.map_some, Option.getD_some, namedChildren, children_annotate_prune,
      children_annotate_before, named_after, named_before, collectYields, bind_assoc, pure_bind]
    refine bind_congr fun selector => bind_congr fun _ => ?_
    exact mapM_after_bind (fun d hd => harms.switchArm_after hd)
      (fun d hd hmark => harms.switchArm_comment hd hmark) fun front back => by simp

end Spared

/-- An expression is lowered as before. -/
theorem exprMeaning_after {t : Tree Bool} (ht : t.Prunable) (h : Spared t.children) :
    exprMeaning t.token (after t.children) = exprMeaning t.token (before t.children) := by
  unfold exprMeaning
  split
  · next hkind =>
    exact Spared.head?_named (fun c hc => ht.spared_of_kind hkind hc) fun c hc =>
      congrArg Meaning.expr (h.mark hc)
  all_goals try rfl
  · rw [h.receiver_after, h.arguments_first?, h.text_first?]
  · dsimp only
    rw [h.arguments_first?, h.typeRef_first?, h.anonymousClass_find?]
  · exact h.fieldAccess_after
  · rw [h.exprOr_first?, h.exprOr_first?, h.text_first?]
  · rw [h.exprOr_first?, h.exprOr_first?, h.text_first?]
  · rw [h.exprOr_first?, h.typeRef_first?, h.text_first?]
  · rw [h.exprOr_first?, h.typeRef_first?]
  · rw [h.exprOr_first?, h.exprOr_first?, h.exprOr_first?]
  · rw [h.exprOr_first?, h.exprOr_first?]
  · rw [h.typeRef_first?, named_after, named_before]
    exact mapM_after_bind (fun c hc => h.named.arrayPart_after hc)
      (fun c hc hmark => h.named.arrayPart_comment hc hmark) fun front back => by simp
  · rw [h.lambdaParams_first?, h.first?_after .body, first?_before _ .body]
    cases hbody : first? .body t.children with
    | none => rfl
    | some body => simp only [Option.map_some, h.block_after (List.mem_of_find?_eq_some hbody)]
  · next hkind =>
    have hspared : ∀ c ∈ (named t.children).head?.toList, c.mark = false := fun c hc =>
      ht.spared_of_kind hkind hc
    rw [h.methodRefReceiver_after hspared, h.methodRefName_after hspared]
  · exact h.switchExpr_after
  · rw [h.innerExprs_after]

/-! ### Statements -/

namespace Spared

theorem localVar_after (h : Spared cs) (hc : c ∈ cs) (type : TypeRef) :
    localVar type (c.prune.annotate meaning) = localVar type (c.annotate meaning) := by
  have hbelow := h.below hc
  unfold localVar childText
  rw [child?, child?, children_annotate_prune, child?, child?, children_annotate_before,
    hbelow.mapM_first?, hbelow.text_first?, hbelow.dimsOf_after]

theorem typeRef_head? (h : Spared cs) (hc : c ∈ cs)
    (hspared : ∀ d ∈ c.namedChildren.head?.toList, d.mark = false) :
    (c.prune.annotate meaning).namedChildren.head?.map typeRef =
      (c.annotate meaning).namedChildren.head?.map typeRef := by
  rw [namedChildren, children_annotate_prune, namedChildren, children_annotate_before]
  refine head?_named hspared fun d hd => ?_
  simp [typeRef_prune ((h.below hc).prunable d hd)]

theorem catchVar_after (h : Spared cs) : catchVar (after cs) = catchVar (before cs) := by
  have htypes : ((((Tree.named (after cs)).find? (·.kind == .catchType)).map
      namedChildren).getD []).head?.map typeRef =
        ((((Tree.named (before cs)).find? (·.kind == .catchType)).map
          namedChildren).getD []).head?.map typeRef :=
    h.find?_named (· == .catchType) rfl rfl
      (F := fun o => (((o.map namedChildren).getD []).head?).map typeRef) fun c hc hkind =>
        h.typeRef_head? hc fun d hd =>
          (h.prunable c hc).self.spared_of_kind (beq_iff_eq.mp hkind) hd
  unfold catchVar
  dsimp only
  rw [htypes, h.text_first?]

theorem resource_after (h : Spared cs)
    (hspared : first? .name cs = none → ∀ c ∈ Tree.named cs, c.mark = false) :
    resource (after cs) = resource (before cs) := by
  unfold resource
  rw [h.mapM_first?, h.typeRef_first?, h.first?_after .name, first?_before cs .name]
  cases hname : first? .name cs with
  | none => simp only [Option.map_none, h.exprs_named (hspared hname)]
  | some name => simp only [Option.map_some, text_annotate, text_prune]

theorem forEach_after (h : Spared cs) : forEach (after cs) = forEach (before cs) := by
  unfold forEach
  rw [h.exprOr_first?, h.text_first?, h.dimsOf_after, h.first?_after .type, first?_before cs .type,
    h.first?_after .body, first?_before cs .body]
  have htype : ∀ c ∈ first? .type cs, c.prune.typeRef = c.typeRef := fun c hc =>
    typeRef_prune (h.prunable c (List.mem_of_find?_eq_some hc))
  have hbody : ∀ c ∈ first? .body cs, (c.prune.annotate meaning).mark.stmts =
      (c.annotate meaning).mark.stmts := fun c hc =>
    congrArg Meaning.stmts (h.mark (List.mem_of_find?_eq_some hc))
  cases htype' : first? .type cs <;> cases hbody' : first? .body cs <;> simp_all

theorem labelled_after (h : Spared cs) (label : Label) {f : Marked → Lower γ}
    (hsame : ∀ c ∈ cs, f (c.prune.annotate meaning) = f (c.annotate meaning)) :
    (labelled label (after cs)).mapM f = (labelled label (before cs)).mapM f := by
  have hkept : labelled label ((kept cs).map prune) = (labelled label cs).map prune := by
    simp only [labelled, List.filter_map, Function.comp_def, token_prune]
    rw [filter_kept fun c hc hmark => by simp [(h.comments c hc hmark).label]]
  rw [after, labelled_map_annotate, hkept, before, labelled_map_annotate]
  exact mapM_map_prune fun c hc => hsame c (List.mem_filter.mp hc).1

end Spared

theorem stmtsMeaning_after {t : Tree Bool} (ht : t.Prunable) (h : Spared t.children)
    {declare declare' : Option String → Lower Unit} (hdeclare : declare = declare') :
    stmtsMeaning t.token (after t.children) declare =
      stmtsMeaning t.token (before t.children) declare' := by
  subst hdeclare
  unfold stmtsMeaning
  split
  · dsimp only
    rw [h.typeRef_first?, h.labelled_after .declarator fun c hc => h.localVar_after hc _]
  · next hkind => rw [h.exprs_named fun c hc => ht.spared_of_kind hkind hc]
  · next hkind =>
    rw [Spared.head?_named (F := fun o => o.mapM (·.mark.expr))
      (fun c hc => ht.spared_of_kind hkind hc) fun c hc => by
        simp only [Option.mapM_some, h.mark hc]]
  · next hkind =>
    rw [Spared.head?_named_after fun c hc => ht.spared_of_kind hkind hc, Spared.head?_named_before]
    cases hhead : (named t.children).head? with
    | none => rfl
    | some c => simp only [Option.map_some, h.named.mark (List.mem_of_head? hhead)]
  · have hthis : (first? .constructor (after t.children)).any (·.kind == .thisKeyword) =
        (first? .constructor (before t.children)).any (·.kind == .thisKeyword) :=
      h.congr_first? .constructor (F := fun o => o.any (·.kind == .thisKeyword)) fun c _ _ => by
        simp
    dsimp only
    rw [hthis, h.arguments_first?]
  · exact h.forEach_after
  · rw [h.catchVar_after]
  · next hkind =>
    refine h.resource_after fun hname c hc => ht.spared_of_kind hkind ?_
    rw [takenBy, hname]
    exact hc
  all_goals try rfl
  · rw [named_after, named_before]
    exact h.named.concatM_filter (· != .identifier)
  · split
    · rfl
    · split
      · rw [exprMeaning_after ht h]
      · rw [named_after, named_before, h.named.concatM_stmts]

/-! ### Declarations -/

namespace Spared

theorem modifiers_after (h : Spared cs) : modifiers (after cs) = modifiers (before cs) := by
  rw [after, modifiers_map_annotate, modifiers_map_prune h.comments h.prunable, before,
    modifiers_map_annotate]

theorem typeParams_after (h : Spared cs) : typeParams (after cs) = typeParams (before cs) := by
  rw [after, typeParams_map_annotate, typeParams_map_prune h.comments h.prunable, before,
    typeParams_map_annotate]

theorem fieldDecl_after (h : Spared cs) (hc : c ∈ cs) (type : TypeRef) (isStatic : Bool) :
    fieldDecl type isStatic (c.prune.annotate meaning) =
      fieldDecl type isStatic (c.annotate meaning) := by
  have hbelow := h.below hc
  unfold fieldDecl childText line
  rw [child?, child?, children_annotate_prune, child?, child?, children_annotate_before,
    hbelow.mapM_first?, hbelow.text_first?, hbelow.dimsOf_after, token_annotate, token_prune,
    token_annotate]

theorem mapM_block (h : Spared cs) (label : Label) :
    (first? label (after cs)).mapM block = (first? label (before cs)).mapM block :=
  h.congr_first? label fun _ hc _ => by simp only [Option.mapM_some, h.block_after hc]

theorem methodDecl_after (h : Spared cs) (hc : c ∈ cs) (inInterface : Bool) :
    methodDecl inInterface (c.prune.annotate meaning) =
      methodDecl inInterface (c.annotate meaning) := by
  have hbelow := h.below hc
  have hret : (first? .type (after c.children)).map
      (fun r => r.typeRef.addDims (dimsOf (before c.children) 0)) =
        (first? .type (before c.children)).map
          fun r => r.typeRef.addDims (dimsOf (before c.children) 0) :=
    hbelow.congr_first? .type fun d hd _ => by simp [typeRef_prune (hbelow.prunable d hd)]
  unfold methodDecl childText child? line
  rw [children_annotate_prune, children_annotate_before, hbelow.mapM_block, hbelow.modifiers_after,
    hbelow.typeParams_after, hbelow.params_first?, hbelow.text_first?, hbelow.dimsOf_after, hret,
    token_annotate, token_prune, token_annotate]

theorem constructorDecl_after (h : Spared cs) (hc : c ∈ cs) (simpleName : String) :
    constructorDecl simpleName (c.prune.annotate meaning) =
      constructorDecl simpleName (c.annotate meaning) := by
  have hbelow := h.below hc
  unfold constructorDecl child? line
  rw [children_annotate_prune, children_annotate_before, hbelow.mapM_block, hbelow.modifiers_after,
    hbelow.typeParams_after, hbelow.params_first?, token_annotate, token_prune, token_annotate]

theorem enumConstant_after (h : Spared cs) (hc : c ∈ cs) (decl : TypeDecl) :
    enumConstant decl (c.prune.annotate meaning) = enumConstant decl (c.annotate meaning) := by
  have hbelow := h.below hc
  unfold enumConstant childText child? line
  rw [children_annotate_prune, children_annotate_before, hbelow.arguments_first?,
    hbelow.text_first?, token_annotate, token_prune, token_annotate]

theorem staticBlock_after (h : Spared cs) (hc : c ∈ cs) :
    staticBlock (c.prune.annotate meaning) = staticBlock (c.annotate meaning) := by
  have hbelow := h.below hc
  unfold staticBlock namedChildren
  rw [children_annotate_prune, children_annotate_before,
    hbelow.find?_named_after (· == .block) rfl rfl, find?_named_before (· == .block)]
  cases hfound : (Tree.named c.children).find? (·.kind == .block) with
  | none => rfl
  | some b => exact hbelow.named.block_after (List.mem_of_find?_eq_some hfound)

theorem member_after (h : Spared cs) (hc : c ∈ cs) (decl : TypeDecl) :
    member decl (c.prune.annotate meaning) = member decl (c.annotate meaning) := by
  have hbelow := h.below hc
  have hfields : ∀ type isStatic,
      (labelled .declarator (after c.children)).mapM (fieldDecl type isStatic) =
        (labelled .declarator (before c.children)).mapM (fieldDecl type isStatic) :=
    fun type isStatic => hbelow.labelled_after .declarator fun d hd =>
      hbelow.fieldDecl_after hd type isStatic
  have htype : typeOr (c.prune.annotate meaning) objectRef =
      typeOr (c.annotate meaning) objectRef := by
    rw [typeOr, child?, children_annotate_prune, hbelow.typeRef_first?, typeOr, child?,
      children_annotate_before]
  unfold member
  rw [kind_annotate, kind_prune, kind_annotate, h.mark hc]
  split
  · dsimp only
    rw [children_annotate_prune, children_annotate_before, hbelow.modifiers_after, htype, hfields]
  · dsimp only
    rw [children_annotate_prune, children_annotate_before, hbelow.modifiers_after, htype, hfields]
  · rw [h.methodDecl_after hc]
  · rw [h.constructorDecl_after hc]
  · rw [h.block_after hc]
  · rw [h.staticBlock_after hc]
  · rw [h.enumConstant_after hc]
  · rfl
  · rfl

theorem member_comment (h : Spared cs) (hc : c ∈ cs) (hmark : c.mark) (decl : TypeDecl) :
    member decl (c.annotate meaning) = pure decl := by
  unfold member
  rw [kind_annotate]
  rcases Kind.eq_of_isComment (h.comments c hc hmark).kind with hkind | hkind <;> rw [hkind] <;> rfl

theorem membersMeaning_after (h : Spared cs) :
    membersMeaning (after cs) = membersMeaning (before cs) := by
  funext decl
  rw [membersMeaning, named_after, membersMeaning, named_before]
  exact foldlM_after (fun c hc d => h.named.member_after hc d)
    (fun c hc hmark d => h.named.member_comment hc hmark d) decl

theorem compactBody_after (h : Spared cs) (hc : c ∈ cs) (found : List Stmt) :
    compactBody found (c.prune.annotate meaning) = compactBody found (c.annotate meaning) := by
  by_cases hkind : c.kind = .compactConstructorDeclaration
  · have hbelow := h.below hc
    unfold compactBody child?
    rw [kind_annotate, kind_prune, kind_annotate, hkind, children_annotate_prune,
      children_annotate_before, hbelow.first?_after, first?_before]
    cases hbody : first? .body c.children with
    | none => rfl
    | some body => exact hbelow.block_after (List.mem_of_find?_eq_some hbody)
  · rw [compactBody_of_ne (by simpa using hkind), compactBody_of_ne (by simpa using hkind)]

theorem compactBody_comment (h : Spared cs) (hc : c ∈ cs) (hmark : c.mark) (found : List Stmt) :
    compactBody found (c.annotate meaning) = pure found := by
  refine compactBody_of_ne ?_ found
  rcases Kind.eq_of_isComment (h.comments c hc hmark).kind with hkind | hkind <;> simp [hkind]

theorem recordMembers_after (h : Spared cs) (label : Label) (components : List Param)
    (decl : TypeDecl) : recordMembers components (first? label (after cs)) decl =
      recordMembers components (first? label (before cs)) decl := by
  refine h.congr_first? label (F := fun o => recordMembers components o decl) fun c hc _ => ?_
  have hmembers := (h.below hc).named
  unfold recordMembers
  simp only [Option.map_some, Option.getD_some, namedChildren, children_annotate_prune,
    children_annotate_before, named_after, named_before, h.mark hc]
  rw [foldlM_after (fun d hd found => hmembers.compactBody_after hd found)
    fun d hd hmark found => hmembers.compactBody_comment hd hmark found]

theorem superclassOf_after (h : Spared cs) (t : Token) (simpleName : String) :
    superclassOf t simpleName (after cs) = superclassOf t simpleName (before cs) := by
  unfold superclassOf
  split
  · rfl
  · rfl
  · rw [h.first?_after, first?_before]
    cases hsuper : first? .superclass cs with
    | none => rfl
    | some c =>
      have hc := List.mem_of_find?_eq_some hsuper
      have hlabel : c.token.label = some .superclass := by simpa using List.find?_some hsuper
      have hhead := h.typeRef_head? hc fun d hd => (h.prunable c hc).self.spared d <| by
        rw [unguarded, hlabel]
        exact List.mem_append_left _ hd
      rw [Option.map_eq_bind, Option.map_eq_bind] at hhead
      exact hhead

def listedTypes (c : Marked) : List TypeRef :=
  (c.namedChildren.filter (·.kind == .typeList)).flatMap fun list => list.namedChildren.map typeRef

theorem interfacesOf_eq (cs : List Marked) : interfacesOf cs =
    ((Tree.named cs).filter fun c =>
      c.kind == .superInterfaces || c.kind == .extendsInterfaces).flatMap listedTypes := by
  simp only [interfacesOf, List.filter_flatMap, List.flatMap_assoc, List.map_flatMap]
  rfl

theorem typeRefs_after (h : Spared cs) (hc : c ∈ cs)
    (hspared : ∀ d ∈ Tree.named c.children, d.mark = false) :
    (c.prune.annotate meaning).namedChildren.map typeRef =
      (c.annotate meaning).namedChildren.map typeRef := by
  rw [namedChildren, children_annotate_prune, named_after, after, kept_eq_self hspared,
    namedChildren, children_annotate_before, named_before, before]
  simp only [List.map_map]
  refine List.map_congr_left fun d hd => ?_
  simp [typeRef_prune ((h.below hc).named.prunable d hd)]

theorem listedTypes_after (h : Spared cs) (hc : c ∈ cs)
    (hkind : c.kind = .superInterfaces ∨ c.kind = .extendsInterfaces) :
    listedTypes (c.prune.annotate meaning) = listedTypes (c.annotate meaning) := by
  have hnamed := (h.below hc).named
  have hspared : ∀ d ∈ ((Tree.named c.children).filter (·.kind == .typeList)).flatMap namedChildren,
      d.mark = false := fun d hd => by
    rcases hkind with hkind | hkind
    · exact (h.prunable c hc).self.spared_of_kind hkind hd
    · exact (h.prunable c hc).self.spared_of_kind hkind hd
  unfold listedTypes
  rw [namedChildren, children_annotate_prune, named_after, namedChildren, children_annotate_before,
    named_before, hnamed.filter_after (· == .typeList) rfl rfl, filter_before (· == .typeList)]
  simp only [List.map_map, List.flatMap_map]
  refine List.flatMap_congr fun d hd =>
    hnamed.typeRefs_after (List.mem_filter.mp hd).1 fun e he => ?_
  exact hspared e (List.mem_flatMap.mpr ⟨d, hd, he⟩)

theorem interfacesOf_after (h : Spared cs) :
    interfacesOf (after cs) = interfacesOf (before cs) := by
  have hclauses := h.named.filter_after
    (fun k => k == .superInterfaces || k == .extendsInterfaces) rfl rfl
  rw [interfacesOf_eq, named_after, hclauses, interfacesOf_eq, named_before,
    filter_before fun k => k == .superInterfaces || k == .extendsInterfaces]
  simp only [List.map_map, List.flatMap_map]
  refine List.flatMap_congr fun c hc => ?_
  obtain ⟨hc, hkind⟩ := List.mem_filter.mp hc
  exact h.named.listedTypes_after hc (by simpa using hkind)

end Spared

theorem declareMeaning_after (h : Spared cs) (t : Token) :
    declareMeaning t (after cs) = declareMeaning t (before cs) := by
  funext enclosing
  unfold declareMeaning
  dsimp only
  rw [h.text_first?, h.modifiers_after, h.typeParams_after, h.superclassOf_after,
    h.interfacesOf_after, h.params_first?]
  simp only [h.recordMembers_after]
  rw [h.first?_after .body, first?_before cs .body]
  cases hbody : first? .body cs with
  | none => rfl
  | some body => simp only [Option.map_some, h.mark (List.mem_of_find?_eq_some hbody)]

theorem meaning_after {t : Tree Bool} (ht : t.Prunable) (h : Spared t.children) :
    meaning t.token (after t.children) = meaning t.token (before t.children) := by
  unfold meaning
  rw [exprMeaning_after ht h, declareMeaning_after h, h.membersMeaning_after,
    stmtsMeaning_after ht h rfl]

/-- Every node means what it meant. -/
theorem everywhere_agrees {t : Tree Bool} (ht : t.Everywhere Prunable) : t.Everywhere Agrees := by
  refine ht.of_step fun t ht hbelow => ?_
  have h : Spared t.children := ⟨ht.self.comments, fun c hc => ht.children hc, hbelow⟩
  rw [Agrees, mark_annotate, token_prune, children_prune, mark_annotate]
  exact meaning_after ht.self h

/-! ### Files -/

namespace Spared

theorem importOf_after (h : Spared cs) (hc : c ∈ cs) :
    importOf (c.prune.annotate meaning) = importOf (c.annotate meaning) := by
  have hc := (h.prunable c hc).self
  unfold importOf
  rw [children_annotate, dottedName?_map_annotate, children_prune,
    dottedName?_map_prune hc.comments, hasChild_annotate, hasChild_prune hc .staticKeyword rfl rfl,
    hasChild_annotate, hasChild_prune hc .asterisk rfl rfl, children_annotate,
    dottedName?_map_annotate, hasChild_annotate, hasChild_annotate]

theorem topLevel_after (h : Spared cs) (hc : c ∈ cs) :
    topLevel (c.prune.annotate meaning) = topLevel (c.annotate meaning) := by
  have hname : dottedName? ((kept c.namedChildren).map prune) = dottedName? c.namedChildren :=
    dottedName?_map_prune (named_comments (h.prunable c hc).self.comments)
  unfold topLevel
  rw [kind_annotate, kind_prune, kind_annotate, h.mark hc, namedChildren_annotate,
    dottedName?_map_annotate, namedChildren_prune, hname, namedChildren_annotate,
    dottedName?_map_annotate]

theorem topLevel_comment (h : Spared cs) (hc : c ∈ cs) (hmark : c.mark) :
    topLevel (c.annotate meaning) = pure () := by
  unfold topLevel
  rw [kind_annotate]
  rcases Kind.eq_of_isComment (h.comments c hc hmark).kind with hkind | hkind <;> rw [hkind] <;> rfl

end Spared

end Lower

namespace CompilationUnit

open Lower JavaCallGraph.Tree

/-- A file is lowered to the same unit without comments that lowering does not take by their
place. -/
theorem ofTree_prune {t : Tree Bool} (ht : t.Everywhere Prunable) (path : String)
    (hasErrors : Bool) : ofTree path hasErrors t.prune = ofTree path hasErrors t.plain := by
  have hagrees := everywhere_agrees ht
  have h : Spared (named t.children) := Spared.named
    ⟨ht.self.comments, fun c hc => ht.children hc, fun c hc => hagrees.children hc⟩
  have hafter : (t.prune.annotate meaning).namedChildren = after (named t.children) := by
    rw [namedChildren, children_annotate_prune, named_after]
  have hbefore : (t.plain.annotate meaning).namedChildren = before (named t.children) := by
    rw [Tree.plain, annotate_annotate, namedChildren, children_annotate_before, named_before]
  have himports : ((after (named t.children)).filter (·.kind == .importDeclaration)).map importOf =
      ((before (named t.children)).filter (·.kind == .importDeclaration)).map importOf := by
    rw [h.filter_after (· == .importDeclaration) rfl rfl,
      Spared.filter_before (· == .importDeclaration)]
    simp only [List.map_map]
    exact List.map_congr_left fun c hc => h.importOf_after (List.mem_filter.mp hc).1
  unfold ofTree
  dsimp only
  rw [hafter, hbefore, himports, forM_after (fun c hc => h.topLevel_after hc) fun c hc hmark =>
    h.topLevel_comment hc hmark]

/-! ### Small files with comments -/

def commentFlags (t : SyntaxTree) : Tree Bool := t.annotate fun token _ => token.kind.isComment

def comment : SyntaxTree := leaf .blockComment "/* c */"

/-- Comments before a type, a member, a statement, an argument and an arm, and after what is
returned. -/
def commented : SyntaxTree :=
  let arm := phrase .switchRule
    [comment, phrase .switchLabel otherwise, comment, symbol "->", braced .block [comment]]
  let choice := phrase .switchExpression [symbol "switch",
    under .condition (parenthesized .parenthesizedExpression [word "x"]),
    under .body (braced (.other "switch_block") [comment, arm])]
  let call := phrase .methodInvocation [under .name (word "f"),
    under .arguments (parenthesized (.other "argument_list") [comment, choice])]
  fileOf [comment, classOf "C" [comment, methodOf "m" [] [comment, statement call,
    returning [invocation "g" [], comment]]]]

theorem ofTree_prune_commented : (commentFlags commented).Everywhere Prunable ∧
    ofTree "C.java" false (commentFlags commented).prune =
      ofTree "C.java" false (commentFlags commented).plain := by
  have hprunable : (commentFlags commented).Everywhere Prunable := by decide +kernel
  exact ⟨hprunable, ofTree_prune hprunable "C.java" false⟩

/-- Comments in places where lowering does not look at the kind of a child. -/
def exposed : List SyntaxTree :=
  let typeOf (clauses : List SyntaxTree) := phrase .classDeclaration
    ([symbol "class", under .name (word "C")] ++ clauses ++ [under .body (braced .classBody [])])
  [ -- In front of what is returned.
    fileOf [classOf "C" [methodOf "m" [] [returning [comment, invocation "g" []]]]],
    -- In front of a superclass, and in a list of interfaces.
    fileOf [typeOf [under .superclass
      (phrase (.other "superclass") [symbol "extends", comment, typeName "B"])]],
    fileOf [typeOf [phrase .superInterfaces [symbol "implements",
      phrase .typeList [typeName "I", symbol ",", comment, typeName "J"]]]],
    -- Among the arguments of a type.
    fileOf [classOf "C" [fieldOf (phrase .genericType [typeName "L",
      phrase .typeArguments [symbol "<", typeName "A", comment, symbol ">"]]) (word "x") []]] ]

def mentions (u : CompilationUnit) : List String × List Call :=
  (u.types.flatMap fun d =>
    (d.superclass.toList ++ d.interfaces ++ d.fields.map (·.type)).map TypeRef.render, u.calls)

/-- Such a comment is lowered as an expression or as a type, and makes a difference. -/
theorem ofTree_prune_ne_exposed : exposed.Forall fun file =>
    (commentFlags file).Everywhere DropsComments ∧
      ofTree "C.java" false (commentFlags file).prune ≠
        ofTree "C.java" false (commentFlags file).plain := by
  have hmentions : exposed.Forall fun file => (commentFlags file).Everywhere DropsComments ∧
      (ofTree "C.java" false (commentFlags file).prune).mentions ≠
        (ofTree "C.java" false (commentFlags file).plain).mentions := by
    decide +kernel
  exact hmentions.imp fun file ⟨hdrops, hne⟩ => ⟨hdrops, fun heq => hne (congrArg mentions heq)⟩

end CompilationUnit

end JavaCallGraph
