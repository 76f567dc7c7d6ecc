import JavaCallGraph.Proofs.PlainClasses
import JavaCallGraph.Proofs.UnrolledAgreement

/-!
# What earlier questions do to later answers

A body whose unrolled walk ends has the same callees whatever the engine was asked before, in a
program that fits into the room for nested summaries. In a program that does not, this holds after
questions whose unrolled walks end too. Recursion makes the difference: a summary that is made
while a body is in progress does without that body, and is kept.
-/

namespace JavaCallGraph

namespace Engine

variable {p : Program} {room : Nat} {s : Signature} {e : Engine} {bodies : SignatureSet}
  {fields : FieldSet}

/-! ### Bodies that never get a value -/

def Keeps (p : Program) (bodies : SignatureSet) (fields : FieldSet) {α : Type}
    (x : StateM Engine α) : Prop :=
  ∀ e, Busy p bodies fields e → Busy p bodies fields (x.run e).2

theorem Agrees.keeps {α : Type} {x : StateM Engine α} {y : Option α} {a : α}
    (h : Agrees p bodies fields x y) (ha : y = some a) : Keeps p bodies fields x :=
  fun e he => (h a ha e he).2

theorem Keeps.pure {α : Type} (a : α) : Keeps p bodies fields (Pure.pure a : StateM Engine α) :=
  fun _ he => he

theorem Keeps.bind {α β : Type} {x : StateM Engine α} {f : α → StateM Engine β}
    (hx : Keeps p bodies fields x) (hf : ∀ a, Keeps p bodies fields (f a)) :
    Keeps p bodies fields (x >>= f) :=
  fun e he => hf _ _ (hx e he)

theorem Keeps.script_run {α : Type} {f : Question → StateM Engine (Option ConstraintSet)}
    (h : ∀ q, Keeps p bodies fields (f q)) (script : Script α) :
    Keeps p bodies fields (script.run f) := by
  induction script with
  | done a => exact .pure a
  | ask q next ih => exact (h q).bind ih

theorem Keeps.returnSetBy {f : Signature → StateM Engine (Option BodySummary)}
    (h : ∀ s, Keeps p bodies fields (f s)) (m : Method) :
    Keeps p bodies fields (returnSetBy f m) := by
  refine (h m.signature).bind fun summary => ?_
  cases summary <;> exact .pure _

theorem Keeps.writesBy {f : Signature → StateM Engine (Option BodySummary)}
    (h : ∀ s, Keeps p bodies fields (f s)) (key : FieldKey) :
    Keeps p bodies fields (writesBy p f key) := by
  unfold Engine.writesBy
  generalize writers p key.declaring = sigs, (({} : Writes)) = start
  induction sigs generalizing start with
  | nil => exact .pure start
  | cons s sigs ih =>
    rw [List.foldlM_cons]
    exact ((h s).bind fun summary => .pure _).bind ih

def EndlessFields (p : Program) (fields : FieldSet) : Prop :=
  ∀ level, FieldsOutOfReach p level fields

theorem outOfReach_of_endless (h : p.Endless bodies) (level : Nat) : OutOfReach p level bodies :=
  fun s hs => (h s hs).2 level

theorem fieldSetBy_keeps (hbodies : p.Endless bodies) (hstable : p.StableAt room)
    (hsummaries : ∀ fields, EndlessFields p fields →
      ∀ s, Keeps p bodies fields (summaryBy p room s))
    (hfields : EndlessFields p fields) (key : FieldKey) :
    Keeps p bodies fields (fieldSetBy p (summaryBy p room) key) := by
  by_cases hvalue : ∃ level v, p.unrolledAnswer level (.fieldSet key) = some v
  · obtain ⟨level, v, hv⟩ := hvalue
    have hagree := (summariesAgree_and_answersAgree p room).2 room bodies fields (Nat.le_refl _)
      (outOfReach_of_endless hbodies room) (hfields room) (.fieldSet key)
    exact hagree.keeps ((hstable.extendedBy level).answerFrom _ v hv)
  · push Not at hvalue
    have hnone (level : Nat) : p.unrolledAnswer level (.fieldSet key) = none :=
      Option.eq_none_iff_forall_ne_some.mpr (hvalue level)
    intro e he
    cases hkept : e.fields[key]? with
    | some set =>
      rw [run_fieldSetBy_of_kept hkept]
      exact he
    | none =>
    rw [run_fieldSetBy hkept]
    split
    · exact he
    next hkey =>
    have hinner := Keeps.writesBy (hsummaries (fields.insert key)
      fun level => (hfields level).insert (hnone level)) key _ (he.enterField key)
    refine (hinner.leaveField (he.fieldsInProgress ▸ hkey)).keepWrites fun level v hv => ?_
    simp [hnone level] at hv

theorem answerBy_keeps (hbodies : p.Endless bodies) (hstable : p.StableAt room)
    (hsummaries : ∀ fields, EndlessFields p fields →
      ∀ s, Keeps p bodies fields (summaryBy p room s))
    (hfields : EndlessFields p fields) (q : Question) :
    Keeps p bodies fields (answerBy p (summaryBy p room) q) := by
  cases q with
  | returnSet m => exact Keeps.returnSetBy (hsummaries fields hfields) m
  | fieldSet key => exact fieldSetBy_keeps hbodies hstable hsummaries hfields key

/-- In a program that fits into the room, whatever is asked leaves what is kept right. -/
theorem summaryBy_keeps {total : Nat} (hfits : p.FitsIn total) (hbodies : p.Endless bodies)
    (hfields : EndlessFields p fields) (hroom : total ≤ room + bodies.size) (s : Signature) :
    Keeps p bodies fields (summaryBy p room s) := by
  induction room generalizing bodies fields s with
  | zero =>
    intro e he
    cases hkept : e.summaries[s]? with
    | some summary =>
      rw [run_summaryBy_of_kept hkept]
      exact he
    | none =>
      rw [run_summaryBy_zero hkept]
      exact he
  | succ room ih =>
    by_cases hvalue : ∃ level v, p.unrolled level s = some v
    · obtain ⟨level, v, hv⟩ := hvalue
      have hagree := (summariesAgree_and_answersAgree p (room + 1)).1 (room + 1) bodies fields
        (Nat.le_refl _) (outOfReach_of_endless hbodies _) (fun below _ => hfields below) s
      exact hagree.keeps ((hfits.stableAt hbodies hroom).extendedBy level s v hv)
    · push Not at hvalue
      have hnone (level : Nat) : p.unrolled level s = none :=
        Option.eq_none_iff_forall_ne_some.mpr (hvalue level)
      have hbody : (p.body? s).isSome := by
        by_contra hbody
        have hzero := hnone 0
        simp [Program.unrolled, hbody] at hzero
      intro e he
      cases hkept : e.summaries[s]? with
      | some summary =>
        rw [run_summaryBy_of_kept hkept]
        exact he
      | none =>
      rw [run_summaryBy_succ hkept]
      split
      · exact he
      next hs =>
      -- One more endless body is in progress, in place of one level of room.
      have hs' : s ∉ bodies := he.inProgress ▸ hs
      have hbodies' := hbodies.insert hbody hnone
      have hroom' : total ≤ room + (bodies.insert s).size := by
        rw [Std.ExtTreeSet.size_insert, if_neg (mt Std.ExtTreeSet.mem_iff_contains.mpr hs')]
        omega
      have hanswers := answerBy_keeps hbodies' (hfits.stableAt hbodies' hroom')
        (fun fields' hfields' => ih hbodies' hfields' hroom') hfields
      have hinner := Keeps.script_run hanswers (Body.summarize p s) _ (he.enter s)
      refine (hinner.leave hs').keepSummary fun level v hv => ?_
      simp [hnone level] at hv

/-! ### Histories -/

/-- A question that the engine may be asked from outside. -/
inductive Query where
  | callees (s : Signature)
  | summary (s : Signature)
  | answer (q : Question)

namespace Query

def run (p : Program) (e : Engine) : Query → Engine
  | callees s => ((Engine.callees p s).run e).2
  | summary s => ((Engine.summary p s).run e).2
  | answer q => ((Engine.answer p q).run e).2

/-- The unrolled walk answers the question within the room that the engine has. -/
def Settles (p : Program) : Query → Prop
  | callees s => (p.unrolled (maxDepth + 1) s).isSome
  | summary s => (p.unrolled maxDepth s).isSome
  | answer q => (p.unrolledAnswer maxDepth q).isSome

end Query

def after (p : Program) (history : List Query) : Engine := history.foldl (Query.run p) {}

abbrev Idle (p : Program) (e : Engine) : Prop := Busy p ∅ ∅ e

theorem idle_initial (p : Program) : Idle p {} :=
  ⟨⟨by simp, by simp⟩, rfl, rfl⟩

theorem summary_agrees (p : Program) (s : Signature) :
    Agrees p ∅ ∅ (summary p s) (p.unrolled maxDepth s) :=
  (summariesAgree_and_answersAgree p maxDepth).1 maxDepth ∅ ∅ (Nat.le_refl _)
    (by simp [OutOfReach]) (by simp [FieldsOutOfReach]) s

theorem answer_agrees (p : Program) (q : Question) :
    Agrees p ∅ ∅ (answer p q) (p.unrolledAnswer maxDepth q) :=
  (summariesAgree_and_answersAgree p maxDepth).2 maxDepth ∅ ∅ (Nat.le_refl _)
    (by simp [OutOfReach]) (by simp [FieldsOutOfReach]) q

theorem callees_agrees (p : Program) (s : Signature) :
    Agrees p ∅ ∅ (callees p s) ((p.unrolled (maxDepth + 1) s).map fun summary? =>
      (summary?.map BodySummary.callees).getD ∅) := by
  have hwalk := Agrees.script_run (answer_agrees p) (Body.summarize p s)
  intro found hfound e he
  obtain ⟨summary?, hsummary, rfl⟩ := Option.map_eq_some_iff.mp hfound
  obtain ⟨hvalue, hidle⟩ := hwalk summary? hsummary e he
  rw [callees, run_bind, hvalue]
  cases summary? with
  | none => exact ⟨rfl, hidle⟩
  | some summary => exact ⟨rfl, hidle⟩

theorem Query.Settles.idle {q : Query} (hq : q.Settles p) (he : Idle p e) :
    Idle p (q.run p e) := by
  cases q with
  | callees s =>
    obtain ⟨v, hv⟩ := Option.isSome_iff_exists.mp hq
    exact (callees_agrees p s).keeps (Option.map_eq_some_iff.mpr ⟨v, hv, rfl⟩) e he
  | summary s =>
    obtain ⟨v, hv⟩ := Option.isSome_iff_exists.mp hq
    exact (summary_agrees p s).keeps hv e he
  | answer q =>
    obtain ⟨v, hv⟩ := Option.isSome_iff_exists.mp hq
    exact (answer_agrees p q).keeps hv e he

theorem Query.idle_of_fitsIn (hfits : p.FitsIn maxDepth) (q : Query) (he : Idle p e) :
    Idle p (q.run p e) := by
  have hbodies : p.Endless ∅ := by simp [Program.Endless]
  have hfields : EndlessFields p ∅ := by simp [EndlessFields, FieldsOutOfReach]
  have hroom : maxDepth ≤ maxDepth + (∅ : SignatureSet).size := Nat.le_add_right _ _
  have hsummaries (fields : FieldSet) (hfields : EndlessFields p fields) (s : Signature) :
      Keeps p ∅ fields (Engine.summary p s) := summaryBy_keeps hfits hbodies hfields hroom s
  have hanswers := answerBy_keeps hbodies (hfits.stableAt hbodies hroom) hsummaries hfields
  cases q with
  | callees s =>
    refine Keeps.bind (Keeps.script_run hanswers (Body.summarize p s)) (fun summary? => ?_) e he
    cases summary? <;> exact .pure _
  | summary s => exact hsummaries ∅ hfields s e he
  | answer q => exact hanswers q e he

theorem idle_after {history : List Query}
    (h : p.FitsIn maxDepth ∨ ∀ q ∈ history, q.Settles p) : Idle p (after p history) := by
  unfold after
  have hstart := idle_initial p
  generalize ({} : Engine) = e at hstart ⊢
  induction history generalizing e with
  | nil => exact hstart
  | cons q history ih =>
    rw [List.foldl_cons]
    rcases h with hfits | hall
    · exact ih (.inl hfits) _ (q.idle_of_fitsIn hfits hstart)
    · exact ih (.inr fun r hr => hall r (by simp [hr])) _ ((hall q (by simp)).idle hstart)

/-- What the engine was asked before does not matter to a body whose unrolled walk ends, as long as
either the program fits into the engine's room, or the unrolled walks of the earlier questions end
too. -/
theorem callees_after_eq {history : List Query} {s : Signature}
    (hhistory : p.FitsIn maxDepth ∨ ∀ q ∈ history, q.Settles p)
    (hs : (Query.callees s).Settles p) :
    ((callees p s).run (after p history)).1 = ((callees p s).run {}).1 := by
  obtain ⟨v, hv⟩ := Option.isSome_iff_exists.mp hs
  have hvalue := callees_agrees p s _ (Option.map_eq_some_iff.mpr ⟨v, hv, rfl⟩)
  rw [(hvalue _ (idle_after hhistory)).1, (hvalue _ (idle_initial p)).1]

/-! ### A history that matters -/

section Recursive

def onExpr (receiver : Expr) (name : String) : Expr := .call (.expr receiver) name [] 1

def newOf (type : String) : Expr := .new (.named type) [] none 1

def recursive : CompilationUnit :=
  .plain [
    .plain "X" none [.plain "foo" [] "void" []],
    .plain "Y" (some "X") [.plain "foo" [] "void" []],
    .plain "A" none [.plain "make" [] "X" [.ret (some (newOf "X"))]],
    .plain "B" (some "A") [.plain "make" [] "X" [.ret (some (newOf "Y"))]],
    .plain "M" none [
      .plain "f" [] "A" [.expr (.call .implicit "g" [] 1), .ret (some (newOf "A"))],
      .plain "g" [] "X" [.ret (some (onExpr (.call .implicit "f" [] 1) "make"))],
      .plain "h" [] "void" [.expr (onExpr (.call .implicit "g" [] 1) "foo")],
      .plain "k" [] "void" [.expr (onExpr (onExpr (newOf "A") "make") "foo")]]]

def method (name ret : String) : Signature := ⟨"p.M", name, [], .reference ret⟩

def procedure (type name : String) : Signature := ⟨type, name, [], .void⟩

/-- If `f` is asked for first, the summary of `g` is made without that of `f`. -/
theorem callees_after_ne : ∃ p, Program.build [recursive] {} .degrade = .ok p ∧
    ((callees p (procedure "p.M" "h")).run (after p [.summary (method "f" "p.A")])).1 ≠
      ((callees p (procedure "p.M" "h")).run {}).1 := by
  obtain ⟨p, hp, h⟩ := exists_ok_of_any (Program.build [recursive] {} .degrade)
    (fun p => decide (procedure "p.Y" "foo" ∈
        ((callees p (procedure "p.M" "h")).run (after p [.summary (method "f" "p.A")])).1 ∧
      procedure "p.Y" "foo" ∉ ((callees p (procedure "p.M" "h")).run {}).1))
    (by decide +kernel)
  obtain ⟨hafter, hfresh⟩ := of_decide_eq_true h
  exact ⟨p, hp, fun heq => hfresh (heq ▸ hafter)⟩

/-- A body outside of the recursion has the same callees after the same question. -/
theorem callees_after_eq_recursive : ∃ p, Program.build [recursive] {} .degrade = .ok p ∧
    ¬ (Query.summary (method "f" "p.A")).Settles p ∧
    ((callees p (procedure "p.M" "k")).run (after p [.summary (method "f" "p.A")])).1 =
      ((callees p (procedure "p.M" "k")).run {}).1 ∧
    procedure "p.X" "foo" ∈ ((callees p (procedure "p.M" "k")).run {}).1 := by
  obtain ⟨p, hp, h⟩ := exists_ok_of_any (Program.build [recursive] {} .degrade)
    (fun p => decide (p.bodies.size ≤ maxDepth ∧
      (p.unrolled (maxDepth + 1) (procedure "p.M" "k")).isSome ∧
      ¬ (p.unrolled maxDepth (method "f" "p.A")).isSome ∧
      procedure "p.X" "foo" ∈ ((callees p (procedure "p.M" "k")).run {}).1))
    (by decide +kernel)
  obtain ⟨hsize, hsettles, hendless, hfoo⟩ := of_decide_eq_true h
  have hfits := Program.fitsIn_of_size_le hsize
  exact ⟨p, hp, hendless, callees_after_eq (.inl hfits) hsettles, hfoo⟩

end Recursive

end Engine

end JavaCallGraph
