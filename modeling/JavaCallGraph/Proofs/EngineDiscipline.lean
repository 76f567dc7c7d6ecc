import JavaCallGraph.Proofs.EngineMachine

/-!
# The discipline of the engine

Whatever it is asked, the machine stops, and its replies are those of the engine: every function of
the engine is performed in finitely many steps. Between two queries nothing is in progress, the
depth is that of the bodies in progress all the time, and what is kept is kept for good.
-/

namespace JavaCallGraph

namespace Engine

theorem returnSetBy_eq {m : Type → Type} [Monad m] (summary : Signature → m (Option BodySummary))
    (method : Method) :
    returnSetBy summary method = do return returnsOf (← summary method.signature) := by
  unfold returnSetBy
  congr 1
  funext found
  cases found <;> rfl

theorem run_callees (p : Program) (s : Signature) (e : Engine) :
    (callees p s).run e =
      let walked := ((Body.summarize p s).run (answer p)).run e
      ((walked.1.map BodySummary.callees).getD ∅, walked.2) := by
  rw [callees, run_bind]
  dsimp only
  generalize ((Body.summarize p s).run (answer p)).run e = walked
  cases walked.1 <;> rfl

def Query.reply (p : Program) : Query → StateM Engine Reply
  | callees s => return .callees (← Engine.callees p s)
  | summary s => return .summary (← Engine.summary p s)
  | answer q => return .set (← Engine.answer p q)

theorem Query.run_reply (p : Program) (e : Engine) (q : Query) :
    ((q.reply p).run e).2 = q.run p e := by
  cases q <;> rfl

namespace Machine

variable {p : Program} {m m' : Machine} {depth room : Nat} {α : Type}

/-- At the given depth the machine gets from `start` to what the computation gives, with the engine
that the computation leaves and all else as before. -/
def Performs (p : Program) (depth : Nat) (start : Control) (x : StateM Engine α)
    (finish : α → Control) : Prop :=
  ∀ m : Machine, m.depth = depth → m.control = start →
    Steps p m { m with engine := (x.run m.engine).2, control := finish (x.run m.engine).1 }

theorem performs_walk {answer : Question → StateM Engine (Option ConstraintSet)}
    (h : ∀ q, Performs p depth (.question q) (answer q) .answered)
    (script : Script (Option BodySummary)) :
    Performs p depth (.walk script) (script.run answer) .walked := by
  induction script with
  | done found => exact fun m _ hc => .single (.walkEnds hc)
  | ask q next ih =>
    intro m hdepth hc
    let asked : Machine := { m with control := .question q, stack := .asked next :: m.stack }
    refine .head (.walkAsks hc) ((h q asked hdepth rfl).trans ?_)
    refine .head (.resume rfl rfl) ?_
    exact ih _ { m with engine := _, control := .walk (next _) } hdepth rfl

theorem performs_gather {summary : Signature → StateM Engine (Option BodySummary)}
    (h : ∀ s, Performs p depth (.summary s) (summary s) .summarized) (key : FieldKey)
    (sigs : List Signature) (w : Writes) :
    Performs p depth (.gather key w sigs)
      (sigs.foldlM (fun (w : Writes) s => do return w.add key (← summary s)) w)
      (.gather key · []) := by
  induction sigs generalizing w with
  | nil =>
    rintro ⟨⟩ _ ⟨⟩
    exact .refl
  | cons s sigs ih =>
    intro m hdepth hc
    let asked : Machine := { m with control := .summary s, stack := .writes key w sigs :: m.stack }
    refine .head (.lookAt hc) ((h s asked hdepth rfl).trans ?_)
    refine .head (.lookedAt rfl rfl) ?_
    exact ih _ { m with engine := _, control := .gather key _ sigs } hdepth rfl

theorem performs_question {summary : Signature → StateM Engine (Option BodySummary)}
    (h : ∀ s, Performs p depth (.summary s) (summary s) .summarized) (q : Question) :
    Performs p depth (.question q) (answerBy p summary q) .answered := by
  intro m hdepth hc
  cases q with
  | returnSet method =>
    rw [answerBy, returnSetBy_eq]
    let asked : Machine :=
      { m with control := .summary method.signature, stack := .returns :: m.stack }
    refine .head (.askReturns hc) ((h method.signature asked hdepth rfl).trans ?_)
    exact .single (.returned rfl rfl)
  | fieldSet key =>
    rw [answerBy]
    cases hkept : m.engine.fields[key]? with
    | some set =>
      rw [run_fieldSetBy_of_kept hkept]
      exact .single (.fieldKept hc hkept)
    | none =>
      rw [run_fieldSetBy hkept]
      split
      · next hbusy => exact .single (.fieldBusy hc hkept hbusy)
      · next hbusy =>
        let entered : Machine :=
          { m with engine := m.engine.enterField key
                   control := .gather key {} (writers p key.declaring) }
        have hgather := performs_gather h key (writers p key.declaring) {}
        refine .head (.enterField hc hkept hbusy) ((hgather entered hdepth rfl).trans ?_)
        exact .single (.leaveField rfl)

theorem performs_summary (hroom : depth + room = maxDepth) (s : Signature) :
    Performs p depth (.summary s) (summaryBy p room s) .summarized := by
  induction room generalizing depth s with
  | zero =>
    intro m hdepth hc
    cases hkept : m.engine.summaries[s]? with
    | some summary =>
      rw [run_summaryBy_of_kept hkept]
      exact .single (.summaryKept hc hkept)
    | none =>
      rw [run_summaryBy_zero hkept]
      exact .single (.tooDeep hc hkept (by omega))
  | succ room ih =>
    intro m hdepth hc
    cases hkept : m.engine.summaries[s]? with
    | some summary =>
      rw [run_summaryBy_of_kept hkept]
      exact .single (.summaryKept hc hkept)
    | none =>
      have hlt : m.depth < maxDepth := by omega
      rw [run_summaryBy_succ hkept]
      split
      · next hbusy => exact .single (.bodyBusy hc hkept hlt hbusy)
      · next hbusy =>
        -- One level deeper there is one level of room less.
        have hdeeper : depth + 1 + room = maxDepth := by omega
        have hwalk := performs_walk (performs_question (ih hdeeper)) (Body.summarize p s)
        let entered : Machine :=
          { m with engine := m.engine.enter s, depth := m.depth + 1, stack := .body s :: m.stack
                   control := .walk (Body.summarize p s) }
        have hentered : entered.depth = depth + 1 := congrArg (· + 1) hdepth
        refine .head (.enter hc hkept hlt hbusy) ((hwalk entered hentered rfl).trans ?_)
        exact .single (.leave rfl rfl)

theorem steps_reply (q : Query) (hdepth : m.depth = 0) (hs : m.stack = [])
    (hc : m.control = q.start p) :
    Steps p m (reply { m with engine := q.run p m.engine } ((q.reply p).run m.engine).1) := by
  have hsummary (s : Signature) : Performs p 0 (.summary s) (Engine.summary p s) .summarized :=
    performs_summary (Nat.zero_add maxDepth) s
  have hquestion := performs_question hsummary
  cases q with
  | callees s =>
    have hwalk := performs_walk hquestion (Body.summarize p s) m hdepth hc
    have hreply : ((Query.callees s).reply p).run m.engine =
        let walked := ((Body.summarize p s).run (answer p)).run m.engine
        (.callees ((walked.1.map BodySummary.callees).getD ∅), walked.2) := by
      rw [Query.reply, run_bind, run_callees]
      rfl
    rw [← Query.run_reply, hreply]
    exact hwalk.tail (.replyCallees rfl hs)
  | summary s => exact (hsummary s m hdepth hc).tail (.replySummary rfl hs)
  | answer q => exact (hquestion q m hdepth hc).tail (.replySet rfl hs)

/-- The machine works through its queries and stops. -/
theorem steps_queries (hdepth : m.depth = 0) (hs : m.stack = []) (hc : m.control = .idle) :
    Steps p m { m with
      engine := m.queries.foldl (Query.run p) m.engine
      queries := []
      replies := m.replies ++ ((m.queries.mapM (Query.reply p)).run m.engine).1 } := by
  obtain ⟨e, depth, stack, control, queries, replies⟩ := m
  cases hs
  cases hc
  induction queries generalizing e replies with
  | nil =>
    rw [List.mapM_nil]
    change Steps p _ ⟨e, depth, [], .idle, [], replies ++ []⟩
    rw [List.append_nil]
  | cons q queries ih =>
    let asked : Machine := ⟨e, depth, [], q.start p, queries, replies⟩
    refine .head (.ask rfl rfl) ((steps_reply (m := asked) q hdepth rfl rfl).trans ?_)
    have hrest := ih (q.run p e) (replies ++ [((q.reply p).run e).1]) hdepth
    rw [List.append_assoc] at hrest
    rw [List.mapM_cons, run_bind, run_bind, Query.run_reply]
    exact hrest

structure Done (m : Machine) : Prop where
  control : m.control = .idle
  queries : m.queries = []

theorem Done.not_step (h : Done m) : ¬ Step p m m' := by
  intro hstep
  have hc := h.control
  have hq := h.queries
  cases hstep <;> simp_all

theorem Done.acc (h : Done m') (hsteps : Steps p m m') :
    Acc (fun after before => Step p before after) m := by
  induction hsteps using Relation.ReflTransGen.head_induction_on with
  | refl => exact ⟨_, fun after hstep => absurd hstep h.not_step⟩
  | head hstep _ ih =>
    refine ⟨_, fun after hafter => ?_⟩
    rw [hafter.deterministic hstep]
    exact ih

theorem Done.steps (h : Done m') (hsteps : Steps p m m') {between : Machine}
    (hbetween : Steps p m between) : Steps p between m' := by
  have hunique : Relator.RightUnique (Step p) := fun _ _ _ => Step.deterministic
  rcases Relation.ReflTransGen.total_of_right_unique hunique hbetween hsteps with hrest | hback
  · exact hrest
  · rcases Relation.ReflTransGen.cases_head hback with rfl | ⟨_, hstep, -⟩
    · exact .refl
    · exact absurd hstep h.not_step

theorem Inv.idle (h : Inv m) (hc : m.control = .idle) :
    m.depth = 0 ∧ m.engine.inProgress = ∅ ∧ m.engine.fieldsInProgress = ∅ := by
  have hs := h.stack_eq_nil hc
  have hbodies : m.bodies = [] := by rw [bodies, hs, List.filterMap_nil]
  have hfields : m.fields = [] := by
    rw [fields, hc, hs]
    rfl
  have hhand := h.inHand
  rw [hbodies, hfields] at hhand
  refine ⟨?_, ?_, ?_⟩
  · rw [h.depth_eq, hbodies, List.length_nil]
  · exact Std.ExtTreeSet.eq_empty_iff_forall_not_mem.mpr fun s hs => by
      simpa using (hhand.mem_inProgress s).mp hs
  · exact Std.ExtTreeSet.eq_empty_iff_forall_not_mem.mpr fun key hkey => by
      simpa using (hhand.mem_fieldsInProgress key).mp hkey

/-- Every list of queries is worked off in finitely many steps, with the replies of the engine.
Between two queries nothing is in progress; the depth is all the time the number of bodies in
progress and within its bound; and what is kept at some time is kept unchanged from then on. -/
theorem discipline (p : Program) (queries : List Query) :
    Acc (fun after before => Step p before after) (initial queries) ∧
    (∃ last, Done last ∧ (∀ m, Steps p (initial queries) m → Steps p m last) ∧
      last.engine = after p queries ∧
      last.replies = ((queries.mapM (Query.reply p)).run {}).1) ∧
    ∀ m, Steps p (initial queries) m →
      (m.control = .idle →
        m.depth = 0 ∧ m.engine.inProgress = ∅ ∧ m.engine.fieldsInProgress = ∅) ∧
      m.depth = m.engine.inProgress.size ∧ m.depth ≤ maxDepth ∧
      ∀ m', Steps p m m' → m.engine.KeptBy m'.engine := by
  have hsteps := steps_queries (p := p) (m := initial queries) rfl rfl rfl
  have hdone : Done { initial queries with
      engine := queries.foldl (Query.run p) {}
      queries := []
      replies := [] ++ ((queries.mapM (Query.reply p)).run {}).1 } := ⟨rfl, rfl⟩
  refine ⟨hdone.acc hsteps, ⟨_, hdone, fun m hm => hdone.steps hsteps hm, rfl, rfl⟩, ?_⟩
  intro m hm
  have hinv := ((inv_initial queries).steps hm).1
  refine ⟨hinv.idle, ?_, hinv.depth_le, fun m' hm' => (hinv.steps hm').2⟩
  rw [hinv.depth_eq, hinv.inHand.size_inProgress]

/-- While the first of two bodies that call each other is being summarized, the depth is one; in
the end its summary is kept and nothing is in progress. -/
theorem discipline_recursive : ∃ p m last, Program.build [recursive] {} .degrade = .ok p ∧
    Steps p (initial [.summary (method "f" "p.A")]) m ∧
    m.control = .walk (Body.summarize p (method "f" "p.A")) ∧
    m.depth = 1 ∧ m.engine.inProgress.size = 1 ∧
    Steps p m last ∧ last.depth = 0 ∧ last.engine.inProgress = ∅ ∧
    (last.engine.summaries[method "f" "p.A"]?).isSome := by
  obtain ⟨p, hp, hkept⟩ := exists_ok_of_any (Program.build [recursive] {} .degrade)
    (fun p => (after p [.summary (method "f" "p.A")]).summaries[method "f" "p.A"]?.isSome)
    (by decide +kernel)
  obtain ⟨-, ⟨last, hdone, hlast, hengine, -⟩, hruns⟩ :=
    discipline p [.summary (method "f" "p.A")]
  have hentered : Steps p (initial [.summary (method "f" "p.A")])
      { engine := ({} : Engine).enter (method "f" "p.A")
        depth := 1
        stack := [.body (method "f" "p.A")]
        control := .walk (Body.summarize p (method "f" "p.A"))
        queries := [] } := by
    refine .head (.ask rfl rfl) (.single (.enter rfl ?_ (Nat.zero_lt_succ 31) ?_))
    · simp [initial]
    · simp [initial]
  obtain ⟨-, hsize, -⟩ := hruns _ hentered
  obtain ⟨hdepth, hbodies, -⟩ := (hruns last (hlast _ .refl)).1 hdone.control
  refine ⟨p, _, last, hp, hentered, rfl, rfl, hsize.symm, hlast _ hentered, hdepth, hbodies, ?_⟩
  rw [hengine]
  exact hkept

end Machine

end Engine

end JavaCallGraph
