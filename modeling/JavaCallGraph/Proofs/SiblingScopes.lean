import JavaCallGraph.Proofs.QueryHistory
import JavaCallGraph.Proofs.ReplacedBodies
import JavaCallGraph.Proofs.WalkFrames

/-!
# Scopes beside each other

A body keeps one table of locals for all its blocks, and of two declarations of a name the first
one counts. Statements hide no call of those after them as long as they neither declare nor assign
a name that occurs there: whatever the later statements find alone they find in the whole body too.
A name that two blocks share breaks this, even if each of them declares it.
-/

namespace JavaCallGraph

/-! ### Passes in step -/

namespace BodyContext

open Walk

variable {answers : Question → Option (Option ConstraintSet)}

theorem ends_stmts_append (ctx : BodyContext) (first rest : List Stmt) (s : WalkState) :
    ends answers (ctx.stmts (first ++ rest)) s =
      (ends answers (ctx.stmts first) s).bind fun r => ends answers (ctx.stmts rest) r.2 := by
  induction first generalizing s with
  | nil =>
    rw [List.nil_append, stmts]
    rfl
  | cons a first ih =>
    rw [List.cons_append, stmts, stmts, ends_bind, ends_bind, Option.bind_assoc]
    congr 1
    funext r
    exact ih r.2

theorem ends_settle_zero (pass : Walk Unit) (s : WalkState) :
    ends answers (settle pass 0) s = ends answers pass { s.widen with changed := false } := by
  rw [settle, ends_bind]
  rfl

theorem ends_settle_succ (pass : Walk Unit) (passes : Nat) (s : WalkState) :
    ends answers (settle pass (passes + 1)) s =
      (ends answers pass { s with changed := false }).bind fun r =>
        if r.2.changed then ends answers (settle pass passes) r.2 else some ((), r.2) := by
  rw [settle, ends_bind]
  change ends answers (pass >>= _) { s with changed := false } = _
  rw [ends_bind]
  congr 1
  funext r
  rw [ends_bind]
  change ends answers (if r.2.changed then _ else _) r.2 = _
  split
  · rfl
  · rfl

variable {pass pass' : Walk Unit} {names : String → Bool}

/-- The passes of the first walk find at least what those of the second one find, which they run
side by side with. -/
structure PassesCover (answers : Question → Option (Option ConstraintSet))
    (names : String → Bool) (pass pass' : Walk Unit) : Prop where
  callees : ∀ (s t : WalkState), ends answers pass s = some ((), t) →
    ∀ c ∈ s.summary.callees, c ∈ t.summary.callees
  covers : ∀ (s s' t : WalkState), s.Covers names s' → ends answers pass s = some ((), t) →
    ∃ t', ends answers pass' s' = some ((), t') ∧ t.Covers names t'

theorem PassesCover.callees_settle (h : PassesCover answers names pass pass') (passes : Nat)
    {s t : WalkState} (ht : ends answers (settle pass passes) s = some ((), t)) :
    ∀ c ∈ s.summary.callees, c ∈ t.summary.callees := by
  induction passes generalizing s with
  | zero =>
    rw [ends_settle_zero] at ht
    exact h.callees { s.widen with changed := false } t ht
  | succ passes ih =>
    rw [ends_settle_succ, Option.bind_eq_some_iff] at ht
    obtain ⟨⟨⟨⟩, u⟩, hu, ht⟩ := ht
    have hfirst := h.callees _ u hu
    dsimp only at ht
    split at ht
    · exact fun c hc => ih ht c (hfirst c hc)
    · cases ht
      exact hfirst

/-- The second walk never makes a pass that the first one does not make. -/
theorem PassesCover.settle (h : PassesCover answers names pass pass') (passes : Nat)
    {s s' t : WalkState} (hs : s.Covers names s')
    (ht : ends answers (settle pass passes) s = some ((), t)) :
    ∃ t', ends answers (BodyContext.settle pass' passes) s' = some ((), t') ∧
      ∀ c ∈ t'.summary.callees, c ∈ t.summary.callees := by
  induction passes generalizing s s' with
  | zero =>
    rw [ends_settle_zero] at ht ⊢
    have hwiden : ({ s.widen with changed := false } : WalkState).Covers names
        { s'.widen with changed := false } :=
      ⟨hs.widen.locals, id, hs.callees⟩
    obtain ⟨t', ht', hcovers⟩ := h.covers _ _ t hwiden ht
    exact ⟨t', ht', hcovers.callees⟩
  | succ passes ih =>
    rw [ends_settle_succ, Option.bind_eq_some_iff] at ht
    obtain ⟨⟨⟨⟩, u⟩, hu, ht⟩ := ht
    have hstart : ({ s with changed := false } : WalkState).Covers names
        { s' with changed := false } := ⟨hs.locals, id, hs.callees⟩
    obtain ⟨u', hu', hcovers⟩ := h.covers _ _ u hstart hu
    rw [ends_settle_succ, hu', Option.bind_some]
    dsimp only at ht ⊢
    by_cases hchanged' : u'.changed
    · rw [if_pos (hcovers.changed hchanged')] at ht
      rw [if_pos hchanged']
      exact ih hcovers ht
    · -- The second walk is through; what the first one still does only adds callees.
      rw [if_neg hchanged']
      refine ⟨u', rfl, fun c hc => ?_⟩
      have hc' := hcovers.callees c hc
      split at ht
      · exact h.callees_settle passes ht c hc'
      · cases ht
        exact hc'

theorem passesCover_stmts (ctx : BodyContext) {first rest : List Stmt}
    (hfirst : Stmt.allKeepTo (fun _ => true) (fun name => !names name) first)
    (hrest : Stmt.allKeepTo names names rest) :
    PassesCover answers names (ctx.stmts (first ++ rest)) (ctx.stmts rest) := by
  have hends {s u : WalkState} (hu : ends answers (ctx.stmts (first ++ rest)) s = some ((), u)) :
      ∃ t, s.Grows (fun name => !names name) t ∧
        ends answers (ctx.stmts rest) t = some ((), u) := by
    rw [ends_stmts_append, Option.bind_eq_some_iff] at hu
    obtain ⟨⟨⟨⟩, t⟩, ht, hu⟩ := hu
    have hframed := framed_stmts ctx first hfirst answers s s (.refl _ s) () t ht
    exact ⟨t, hframed.1, hu⟩
  constructor
  · intro s u hu c hc
    obtain ⟨t, hst, hu⟩ := hends hu
    have hframed := framed_stmts ctx rest hrest answers t t (.refl _ t) () u hu
    exact hframed.1.callees c (hst.callees c hc)
  · intro s s' u hs hu
    obtain ⟨t, hst, hu⟩ := hends hu
    have ht : t.Covers names s' := hs.of_grows hst (by simp)
    exact (framed_stmts ctx rest hrest answers t s' ht () u hu).2

end BodyContext

/-! ### Bodies -/

theorem Body.run_summarize {p : Program} {s : Signature}
    {answers : Question → Option (Option ConstraintSet)} {ctx : BodyContext} {params : List Param}
    {pass : Walk Unit} (h : (p.body? s >>= passOf p) = some (ctx, params, pass)) :
    (summarize p s).run answers =
      (Walk.ends answers (BodyContext.settle pass BodyContext.maxPasses)
        (ctx.declareParams {} params)).map fun r => some r.2.summary := by
  rw [summarize, h]
  dsimp only
  rw [Script.run_bind, Option.map_eq_bind]
  rfl

namespace Program

variable {units : List CompilationUnit} {library : Library} {policy : CyclePolicy} {p q : Program}
  {s : Signature} {ref : DeclRef} {j : Nat} {first rest : List Stmt} {names : String → Bool}

/-- Under the same answers, the walk through the later statements alone finds no callee that the
walk through all of them does not find. -/
theorem callees_run_summarize (hshares : p.SharesTypes q)
    (hbodies : q.bodies = p.bodies.mapSources (SourceType.withStatements ref j rest))
    (hbody : p.MethodBody s ref j (first ++ rest))
    (hfirst : Stmt.allKeepTo (fun _ => true) (fun name => !names name) first)
    (hrest : Stmt.allKeepTo names names rest)
    {answers : Question → Option (Option ConstraintSet)} {v : Option BodySummary}
    (hv : (Body.summarize p s).run answers = some v) :
    ∃ summary alone, v = some summary ∧ (Body.summarize q s).run answers = some (some alone) ∧
      ∀ c ∈ alone.callees, c ∈ summary.callees := by
  obtain ⟨ctx, params, hprogram, hp, hq⟩ := hbody.exists_passOf hshares hbodies
  have hshares' : ctx.program.SharesTypes q := hprogram.symm ▸ hshares
  rw [Body.run_summarize hp, Option.map_eq_some_iff] at hv
  obtain ⟨⟨⟨⟩, t⟩, ht, hv⟩ := hv
  obtain ⟨t', ht', hcallees⟩ := (ctx.passesCover_stmts hfirst hrest).settle _ (.refl names _) ht
  refine ⟨t.summary, t'.summary, hv.symm, ?_, hcallees⟩
  rw [Body.run_summarize hq, BodyContext.declareParams_within hshares', ht']
  rfl

/-- The first level at which the body has a value. -/
theorem exists_first_level {room : Nat} {v : Option BodySummary}
    (hbody : (p.body? s).isSome) (hv : p.unrolled room s = some v) :
    ∃ level < room, (∀ below ≤ level, p.unrolled below s = none) ∧
      p.unrolled (level + 1) s = some v := by
  induction room with
  | zero => simp [unrolled, hbody] at hv
  | succ room ih =>
    cases hless : p.unrolled room s with
    | none =>
      refine ⟨room, Nat.lt_succ_self room, fun below hbelow => ?_, hv⟩
      exact (unrolled_extendedBy p hbelow).eq_none hless
    | some w =>
      obtain rfl := unrolled_unique hless hv
      obtain ⟨level, hlevel, hfound⟩ := ih hless
      exact ⟨level, Nat.lt_succ_of_lt hlevel, hfound⟩

theorem callees_run_eq {e : Engine} (he : Engine.Idle p e) {room : Nat}
    (hroom : room ≤ Engine.maxDepth + 1) {summary : BodySummary}
    (hsummary : p.unrolled room s = some (some summary)) :
    ((Engine.callees p s).run e).1 = summary.callees := by
  have hvalue := unrolled_extendedBy p hroom s _ hsummary
  have hagrees := Engine.callees_agrees p s summary.callees
    (Option.map_eq_some_iff.mpr ⟨_, hvalue, rfl⟩)
  exact (hagrees e he).1

/-- Statements hide no callee of the statements after them, if they neither declare nor assign a
name that occurs there. This is so under any answers to the questions of the two walks, as long as
they are answered alike. It is so for the answers of the engine, if no recursion is met while the
questions are answered, one inside the other. -/
theorem callees_subset_of_names_apart (hp : build units library policy = .ok p)
    (hbody : p.MethodBody s ref j (first ++ rest))
    (hfirst : Stmt.allKeepTo (fun _ => true) (fun name => !names name) first)
    (hrest : Stmt.allKeepTo names names rest) :
    ∃ q, build (CompilationUnit.withStatements units ref j rest) library policy = .ok q ∧
      q.MethodBody s ref j rest ∧
      (∀ (answers : Question → Option (Option ConstraintSet)) (summary : BodySummary),
        (Body.summarize p s).run answers = some (some summary) →
        ∃ alone, (Body.summarize q s).run answers = some (some alone) ∧
          ∀ c ∈ alone.callees, c ∈ summary.callees) ∧
      ((Engine.Query.callees s).Settles p → ∀ e e', Engine.Idle p e → Engine.Idle q e' →
        ∀ c ∈ ((Engine.callees q s).run e').1, c ∈ ((Engine.callees p s).run e).1) := by
  obtain ⟨q, hq, hshares, hbodies⟩ := exists_build_withStatements hp ref j rest
  refine ⟨q, hq, hbody.replaced hbodies, fun answers summary hsummary => ?_,
    fun hsettles e e' he he' => ?_⟩
  · obtain ⟨_, alone, heq, halone, hcallees⟩ :=
      callees_run_summarize hshares hbodies hbody hfirst hrest hsummary
    cases heq
    exact ⟨alone, halone, hcallees⟩
  · obtain ⟨v, hv⟩ := Option.isSome_iff_exists.mp hsettles
    have hsome : (p.body? s).isSome := by
      obtain ⟨source, m, hs, -⟩ := hbody
      simp [hs]
    obtain ⟨level, hlevel, hnone, hv⟩ := exists_first_level hsome hv
    -- No answer at this level depends on the body, so both programs give the same ones.
    have hanswers : ExtendedBy (p.unrolledAnswer level) (q.unrolledAnswer level) := by
      have hless := unrolled_extendedBy_replaced hshares hbodies hp hbody hnone
      unfold unrolledAnswer
      rw [answerFrom_replaced hshares]
      exact hless.answerFrom
    obtain ⟨summary, alone, rfl, halone, hcallees⟩ := callees_run_summarize hshares hbodies hbody
      hfirst hrest (hanswers.script_run (Body.summarize p s) hv)
    rw [callees_run_eq he' hlevel halone, callees_run_eq he hlevel hv]
    exact hcallees

/-! ### Two clauses -/

section Clauses

/-- A program's method at a place, with the statements that it has in the units. -/
theorem methodBody_of_build (hp : build units library policy = .ok p) {b : Body}
    (hb : p.body? s = some b) (hkind : b.kind = .declared j) (href : b.source.ref = ref)
    {u : CompilationUnit} (hu : units[ref.unit]? = some u) {d : TypeDecl}
    (hd : u.types[ref.index]? = some d) {m : MethodDecl} (hm : d.methods[j]? = some m)
    (hmethod : m.kind = .method) {body : List Stmt} (hbody : m.body = some body) :
    p.MethodBody s ref j body := by
  obtain ⟨source, kind⟩ := b
  dsimp only at hkind href
  subst hkind
  have hlisted := (Declarations.of_getElem?_ofUnits (body?_of_build hp hb).1).1
  obtain ⟨u', hu', hd', -⟩ := Declarations.mem_listed.mp hlisted
  dsimp only at hu' hd'
  rw [href] at hu' hd'
  cases hu.symm.trans hu'
  cases hd.symm.trans hd'
  exact ⟨source, m, hb, href, hm, hmethod, hbody⟩

def clause (type name method : String) : List Stmt :=
  [.localVar name (.named type) none, .expr (Engine.onExpr (.name name) method)]

def clauses (name : String) : CompilationUnit :=
  .plain [.plain "E" none [.plain "a" [] "void" []], .plain "F" none [.plain "b" [] "void" []],
    .plain "M" none [.plain "run" [] "void" (clause "E" "e" "a" ++ clause "F" name "b")]]

def clausesRun : Signature := ⟨"p.M", "run", [], .void⟩

def clausesPlace : DeclRef := ⟨0, 2⟩

def standsAtClauses (b : Body) : Bool := b.kind = .declared 0 ∧ b.source.ref = clausesPlace

theorem methodBody_clauses {name : String} (hp : build [clauses name] {} .degrade = .ok p)
    (hb : (p.body? clausesRun).any standsAtClauses) :
    p.MethodBody clausesRun clausesPlace 0 (clause "E" "e" "a" ++ clause "F" name "b") := by
  obtain ⟨b, hb, hplace⟩ := (Option.any_eq_true _ _).mp hb
  obtain ⟨hkind, href⟩ := of_decide_eq_true hplace
  exact methodBody_of_build hp hb hkind href rfl rfl rfl rfl rfl

/-- The second clause finds its call after a first clause with a local of another name. -/
theorem callees_subset_of_names_apart_clauses :
    ∃ p, build [clauses "f"] {} .degrade = .ok p ∧
      Engine.procedure "p.F" "b" ∈ ((Engine.callees p clausesRun).run {}).1 := by
  obtain ⟨p, hp, h⟩ := exists_ok_of_any (build [clauses "f"] {} .degrade)
    (fun p => (p.body? clausesRun).any standsAtClauses &&
      (p.unrolled (Engine.maxDepth + 1) clausesRun).isSome)
    (by decide +kernel)
  obtain ⟨hb, hsettles⟩ := Bool.and_eq_true_iff.mp h
  obtain ⟨q', hq', hfound⟩ := exists_ok_of_any
    (build (CompilationUnit.withStatements [clauses "f"] clausesPlace 0 (clause "F" "f" "b")) {}
      .degrade)
    (fun q => decide (Engine.procedure "p.F" "b" ∈ ((Engine.callees q clausesRun).run {}).1))
    (by decide +kernel)
  obtain ⟨q, hq, -, -, hcallees⟩ := callees_subset_of_names_apart hp (methodBody_clauses hp hb)
    (show Stmt.allKeepTo (fun _ => true) (fun name => !(name == "f")) _ by decide)
    (show Stmt.allKeepTo (· == "f") (· == "f") _ by decide)
  obtain rfl : q = q' := Except.ok.inj (hq.symm.trans hq')
  exact ⟨p, hp, hcallees hsettles {} {} (Engine.idle_initial p) (Engine.idle_initial q) _
    (of_decide_eq_true hfound)⟩

/-- The second clause loses its call after a first clause with a local of the same name, although
it declares the local itself. -/
theorem callees_not_subset_clauses :
    ∃ p q, build [clauses "e"] {} .degrade = .ok p ∧
      p.MethodBody clausesRun clausesPlace 0 (clause "E" "e" "a" ++ clause "F" "e" "b") ∧
      build (CompilationUnit.withStatements [clauses "e"] clausesPlace 0 (clause "F" "e" "b")) {}
        .degrade = .ok q ∧
      ∃ c ∈ ((Engine.callees q clausesRun).run {}).1,
        c ∉ ((Engine.callees p clausesRun).run {}).1 := by
  obtain ⟨p, hp, h⟩ := exists_ok_of_any (build [clauses "e"] {} .degrade)
    (fun p => (p.body? clausesRun).any standsAtClauses &&
      decide (Engine.procedure "p.F" "b" ∉ ((Engine.callees p clausesRun).run {}).1))
    (by decide +kernel)
  obtain ⟨hb, hlost⟩ := Bool.and_eq_true_iff.mp h
  obtain ⟨q, hq, hfound⟩ := exists_ok_of_any
    (build (CompilationUnit.withStatements [clauses "e"] clausesPlace 0 (clause "F" "e" "b")) {}
      .degrade)
    (fun q => decide (Engine.procedure "p.F" "b" ∈ ((Engine.callees q clausesRun).run {}).1))
    (by decide +kernel)
  exact ⟨p, q, hp, methodBody_clauses hp hb, hq, _, of_decide_eq_true hfound,
    of_decide_eq_true hlost⟩

end Clauses

end Program

end JavaCallGraph
