import JavaCallGraph.Proofs.SettledAnswers
import JavaCallGraph.Proofs.WalkSteps

/-!
# A pass that changes nothing

The passes through a body stop when one of them has changed no local. Callees, returns and writes
are not looked at, and the engine is asked again in each pass. Still, nothing is missed: another
pass leaves everything as it is, the engine included. This needs that no name is used before a
local of that name is introduced, since a declaration alone is no change.
-/

namespace JavaCallGraph

namespace NameEvent

/-- Each name is used only after it has been introduced, if it is introduced at all. The names in
`seen` have been introduced before. -/
def inOrder (seen : List String) : List NameEvent → Bool
  | [] => true
  | use name :: rest => (seen.contains name || !rest.contains (introduce name)) && inOrder seen rest
  | introduce name :: rest => inOrder (name :: seen) rest

theorem introduced_of_inOrder {seen : List String} {events : List NameEvent}
    (h : inOrder seen events) {before after : List NameEvent} {name : String}
    (hevents : events = before ++ use name :: after) (hname : introduce name ∈ events) :
    name ∈ seen ∨ introduce name ∈ before := by
  induction events generalizing seen before with
  | nil => simp at hname
  | cons event events ih =>
    cases event with
    | use first =>
      simp only [inOrder, Bool.and_eq_true, Bool.or_eq_true, List.contains_iff_mem,
        Bool.not_eq_true', Bool.eq_false_iff, Ne] at h
      have hlater : introduce name ∈ events := by simpa using hname
      cases before with
      | nil =>
        cases hevents
        exact .inl (h.1.resolve_right fun hnot => hnot hlater)
      | cons event before =>
        cases hevents
        exact (ih h.2 rfl hlater).imp_right (List.mem_cons_of_mem _)
    | introduce first =>
      rw [inOrder] at h
      cases before with
      | nil => cases hevents
      | cons event before =>
        cases hevents
        by_cases hfirst : first = name
        · exact .inr (by simp [hfirst])
        · have hlater : introduce name ∈ before ++ use name :: after := by
            simpa [Ne.symm hfirst] using hname
          rcases ih h rfl hlater with hseen | hbefore
          · exact .inl (by simpa [Ne.symm hfirst] using hseen)
          · exact .inr (List.mem_cons_of_mem _ hbefore)

end NameEvent

/-! ### Walking once more -/

/-- Nothing is left to do: neither state notes a change, and the second one has all the locals of
the first one as they are, and all that has been found out. -/
structure WalkState.Within (s t : WalkState) : Prop where
  unchanged : s.changed = false
  unchanged' : t.changed = false
  locals : ∀ (name : String) (l : Local), s.locals[name]? = some l → t.locals[name]? = some l
  summary : s.summary ≤ t.summary

theorem WalkState.Within.of_extends {s t u : WalkState} (h : t.Within u) (hst : s.Extends t) :
    s.Within u where
  unchanged := hst.unchanged h.unchanged
  unchanged' := h.unchanged'
  locals name l hl := h.locals name l (hst.kept h.unchanged name l hl)
  summary := hst.summary.trans h.summary

namespace Walk

variable {α : Type} {answers : Question → Option (Option ConstraintSet)}
  {events : List NameEvent} {x : Walk α} {s t u : WalkState} {a : α}

theorem ends_declareAssign_of_within {name : String} {type : Option StaticType}
    {set : ConstraintSet} (h : ((s.declareLocal name type).assign name set).Within u) :
    (u.declareLocal name type).assign name set = u := by
  obtain ⟨l, hl⟩ : ∃ l, (s.declareLocal name type).locals[name]? = some l := by
    have hmem : name ∈ (s.declareLocal name type).locals := WalkState.mem_declare.mpr (.inl rfl)
    exact Option.isSome_iff_exists.mp (Std.ExtTreeMap.mem_iff_isSome_getElem?.mp hmem)
  have hassign : (s.declareLocal name type).assign? name set = some _ :=
    WalkState.assign?_of_some hl
  have hunchanged := h.unchanged
  have hlocal := (h.of_extends (WalkState.extends_assign _ name set)).locals name l hl
  rw [WalkState.assign, hassign] at hunchanged
  obtain ⟨-, hassigned, hle⟩ := WalkState.le_of_assign?_unchanged hl hassign hunchanged
  have hdeclared : u.declareLocal name type = u :=
    WalkState.declare_of_mem (Std.ExtTreeMap.mem_iff_isSome_getElem?.mpr (by simp [hlocal])) _
  rw [hdeclared, WalkState.assign, WalkState.assign?_eq_self h.unchanged' hlocal hassigned hle]
  rfl

/-- A walk that has changed nothing does the same and changes nothing when it is repeated from a
state in which nothing is left to do. A name that is a local there must have been one at its use. -/
theorem Composed.repeats (h : Composed events x) (hends : ends answers x s = some (a, t))
    (hwithin : t.Within u)
    (hknown : ∀ before name after, events = before ++ .use name :: after → name ∈ u.locals →
      name ∈ s.locals ∨ .introduce name ∈ before) :
    ends answers x u = some (a, u) := by
  induction h generalizing s t with
  | pure b =>
    cases hends
    rfl
  | @bind events rest _ _ x f hx hf ihx ihf =>
    rw [ends_bind, Option.bind_eq_some_iff] at hends
    obtain ⟨⟨b, m⟩, hm, ht⟩ := hends
    obtain ⟨-, hnames⟩ := hx.growth hm
    obtain ⟨hmt, -⟩ := (hf b).growth ht
    have hfirst := ihx hm (hwithin.of_extends hmt) fun before name after hsplit =>
      hknown before name (after ++ rest) (by simp [hsplit])
    have hsecond := ihf b ht hwithin fun before name after hsplit hname => by
      rw [hnames, or_assoc, ← List.mem_append]
      exact hknown (events ++ before) name after (by simp [hsplit]) hname
    rw [ends_bind, hfirst]
    exact hsecond
  | question q =>
    rw [ends_question, Option.map_eq_some_iff] at hends
    obtain ⟨answer, hanswer, heq⟩ := hends
    cases heq
    rw [ends_question, hanswer]
    rfl
  | @look rest name _ f hlocal hf ih =>
    have hst := ((hf s).growth hends).1
    have hlook : s.locals[name]? = u.locals[name]? := by
      cases hs : s.locals[name]? with
      | some l => exact ((hwithin.of_extends hst).locals name l hs).symm
      | none =>
        cases hu : u.locals[name]? with
        | none => rfl
        | some l =>
          have hmem : name ∈ u.locals := Std.ExtTreeMap.mem_iff_isSome_getElem?.mpr (by simp [hu])
          have hmem' : name ∈ s.locals := by simpa using hknown [] name rest rfl hmem
          rw [Std.ExtTreeMap.mem_iff_isSome_getElem?, hs] at hmem'
          cases hmem'
    have hrest := ih s hends hwithin fun before other after hsplit hother => by
      have := hknown (.use name :: before) other after (by simp [hsplit]) hother
      simpa using this
    change ends answers (f u) u = _
    rw [← hlocal s u hlook]
    exact hrest
  | assignName ctx name v =>
    cases hassign : s.locals[name]? with
    | none =>
      -- There is no such local in the other state either, so a field is written once more.
      have hu : u.locals[name]? = none := by
        rw [← Option.not_isSome_iff_eq_none, ← Std.ExtTreeMap.mem_iff_isSome_getElem?]
        intro hmem
        have hmem' : name ∈ s.locals := by simpa using hknown [] name [] rfl hmem
        rw [Std.ExtTreeMap.mem_iff_isSome_getElem?, hassign] at hmem'
        cases hmem'
      rw [ctx.ends_assignName_of_none (WalkState.assign?_of_none hassign)] at hends
      rw [ctx.ends_assignName_of_none (WalkState.assign?_of_none hu)]
      cases hfield : ctx.implicitField? name with
      | none =>
        rw [hfield] at hends
        cases hends
        rfl
      | some field =>
        rw [hfield] at hends
        cases hends
        have hagain := (BodySummary.adds_addWrite (.ofField field) v.set).again hwithin.summary
        change some ((), { u with summary := u.summary.addWrite (.ofField field) v.set }) = _
        rw [hagain]
    | some l =>
      have hsome : s.assign? name v.set = some _ := WalkState.assign?_of_some hassign
      rw [ctx.ends_assignName_of_some hsome] at hends
      cases hends
      obtain ⟨-, hassigned, hle⟩ :=
        WalkState.le_of_assign?_unchanged hassign hsome hwithin.unchanged
      have hlocal := (hwithin.of_extends (WalkState.extends_of_assign? hsome)).locals name l hassign
      exact ctx.ends_assignName_of_some
        (WalkState.assign?_eq_self hwithin.unchanged' hlocal hassigned hle)
  | declare name l =>
    cases hends
    obtain ⟨known, hmem⟩ := Option.isSome_iff_exists.mp (Std.ExtTreeMap.mem_iff_isSome_getElem?.mp
      (WalkState.mem_declare.mpr (.inl rfl) : name ∈ (s.declare name l).locals))
    have hmem' : name ∈ u.locals :=
      Std.ExtTreeMap.mem_iff_isSome_getElem?.mpr (by simp [hwithin.locals name known hmem])
    exact congrArg (fun state => some ((), state)) (WalkState.declare_of_mem hmem' l)
  | declareAssign name type set =>
    cases hends
    exact congrArg (fun state => some ((), state)) (ends_declareAssign_of_within hwithin)
  | @note f hf =>
    cases hends
    have hagain := hf.again hwithin.summary
    change some ((), { u with summary := f u.summary }) = _
    rw [hagain]

end Walk

/-! ### Passes -/

namespace BodyContext

open Walk

variable {answers : Question → Option (Option ConstraintSet)} {pass : Walk Unit}
  {events : List NameEvent} {passes : Nat} {s t : WalkState}

/-- Runs `pass` until it changes no local. If `passes` passes have all changed one, `last`
follows. -/
def passesThen (last pass : Walk Unit) : (passes : Nat) → Walk Unit
  | 0 => last
  | passes + 1 => do
    modify fun s => { s with changed := false }
    pass
    if (← get).changed then passesThen last pass passes

def passesUpTo (pass : Walk Unit) (passes : Nat) : Walk Unit := passesThen (return) pass passes

def widenedPass (pass : Walk Unit) : Walk Unit := do
  modify fun s => { s.widen with changed := false }
  pass

theorem settle_eq_passesThen (pass : Walk Unit) (passes : Nat) :
    settle pass passes = passesThen (widenedPass pass) pass passes := by
  induction passes with
  | zero => rfl
  | succ passes ih => rw [settle, passesThen, ih]

theorem ends_passesThen_succ (last pass : Walk Unit) (passes : Nat) (s : WalkState) :
    ends answers (passesThen last pass (passes + 1)) s =
      (ends answers pass { s with changed := false }).bind fun r =>
        if r.2.changed then ends answers (passesThen last pass passes) r.2 else some ((), r.2) := by
  rw [passesThen, ends_bind]
  change ends answers (pass >>= _) { s with changed := false } = _
  rw [ends_bind]
  congr 1
  funext r
  rw [ends_bind]
  change ends answers (if r.2.changed then _ else _) r.2 = _
  split
  · rfl
  · rfl

/-- The passes end with one whose first state has all locals that there were before. -/
theorem exists_last_pass (hpass : Composed events pass)
    (h : ends answers (passesUpTo pass (passes + 1)) s = some ((), t)) :
    ∃ u, ends answers pass u = some ((), t) ∧ ∀ name, name ∈ s.locals → name ∈ u.locals := by
  induction passes generalizing s with
  | zero =>
    rw [passesUpTo, ends_passesThen_succ, Option.bind_eq_some_iff] at h
    obtain ⟨⟨⟨⟩, m⟩, hm, h⟩ := h
    refine ⟨{ s with changed := false }, ?_, fun _ => id⟩
    dsimp only at h
    split at h
    · cases h
      exact hm
    · cases h
      exact hm
  | succ passes ih =>
    rw [passesUpTo, ends_passesThen_succ, Option.bind_eq_some_iff] at h
    obtain ⟨⟨⟨⟩, m⟩, hm, h⟩ := h
    dsimp only at h
    split at h
    · obtain ⟨u, hu, hnames⟩ := ih h
      exact ⟨u, hu, fun name hname => hnames name (((hpass.growth hm).2 name).mpr (.inl hname))⟩
    · cases h
      exact ⟨_, hm, fun _ => id⟩

theorem mem_declareParams {ctx : BodyContext} {params : List Param} {name : String} :
    name ∈ (ctx.declareParams s params).locals ↔
      name ∈ params.map (·.name) ∨ name ∈ s.locals := by
  have hends : ends (fun _ => none) (modify (ctx.declareParams · params)) s =
      some ((), ctx.declareParams s params) := rfl
  rw [((ctx.composed_declareParams params).growth hends).2]
  simp [or_comm, eq_comm]

theorem ends_pass_of_unchanged {ctx : BodyContext} {params : List Param}
    (hpass : Composed events pass) (horder : NameEvent.inOrder (params.map (·.name)) events)
    (h : ends answers (passesUpTo pass (passes + 1)) (ctx.declareParams {} params) = some ((), t))
    (ht : t.changed = false) : ends answers pass t = some ((), t) := by
  obtain ⟨u, hu, hnames⟩ := exists_last_pass hpass h
  refine hpass.repeats hu ⟨ht, ht, fun _ _ => id, le_rfl⟩ fun before name after hsplit hname => ?_
  rcases ((hpass.growth hu).2 name).mp hname with hlocal | hintroduced
  · exact .inl hlocal
  · refine (NameEvent.introduced_of_inOrder horder hsplit hintroduced).imp_left fun hparam => ?_
    exact hnames name (mem_declareParams.mpr (.inl hparam))

end BodyContext

/-! ### On the engine -/

namespace Walk

variable {α β : Type} {p : Program} {room : Nat}

/-- Runs a walk on the engine, with room for so many nested summaries. -/
def runOn (p : Program) (room : Nat) (x : Walk α) (s : WalkState) (e : Engine) :
    (α × WalkState) × Engine :=
  ((x.run s).run (Engine.answerBy p (Engine.summaryBy p room))).run e

theorem runOn_bind (x : Walk α) (f : α → Walk β) (s : WalkState) (e : Engine) :
    runOn p room (x >>= f) s e =
      let r := runOn p room x s e
      runOn p room (f r.1.1) r.1.2 r.2 := by
  have hscript {γ δ : Type} (script : Script γ) (g : γ → Script δ) (e : Engine) :
      ((script >>= g).run (Engine.answerBy p (Engine.summaryBy p room))).run e =
        let r := (script.run (Engine.answerBy p (Engine.summaryBy p room))).run e
        ((g r.1).run (Engine.answerBy p (Engine.summaryBy p room))).run r.2 := by
    induction script generalizing e with
    | done c => rfl
    | ask q next ih => exact ih _ _
  exact hscript (x.run s) _ e

theorem ends_of_runOn (p : Program) (room : Nat) (x : Walk α) (s : WalkState) (e : Engine) :
    Engine.Learns p room e (runOn p room x s e).2 ∧
      ends (Engine.known p room (runOn p room x s e).2) x s = some (runOn p room x s e).1 :=
  (Engine.summariesLast p room).script_run (x.run s) e

/-- Where all questions are settled, the engine stays as it is. -/
theorem runOn_of_ends {x : Walk α} {s : WalkState} {e : Engine} {r : α × WalkState}
    (h : ends (Engine.known p room e) x s = some r) : runOn p room x s e = (r, e) := by
  have hscript {γ : Type} (script : Script γ) (c : γ)
      (h : script.run (Engine.known p room e) = some c) :
      (script.run (Engine.answerBy p (Engine.summaryBy p room))).run e = (c, e) := by
    induction script with
    | done d =>
      cases h
      rfl
    | ask q next ih =>
      obtain ⟨answer, hanswer, hnext⟩ := Option.bind_eq_some_iff.mp h
      obtain ⟨hsettled, rfl⟩ := Engine.known_eq_some.mp hanswer
      rw [Script.run, Engine.run_bind, Engine.run_answerBy_of_settled hsettled]
      exact ih _ hnext
  exact hscript (x.run s) r h

end Walk

namespace BodyContext

open Walk

variable {p : Program} {room passes : Nat} {pass : Walk Unit} {s t : WalkState} {e e' : Engine}

theorem runOn_passesThen_succ (last pass : Walk Unit) (passes : Nat) (s : WalkState) (e : Engine) :
    runOn p room (passesThen last pass (passes + 1)) s e =
      let r := runOn p room pass { s with changed := false } e
      if r.1.2.changed then runOn p room (passesThen last pass passes) r.1.2 r.2 else r := by
  rw [passesThen, runOn_bind]
  change runOn p room (pass >>= _) { s with changed := false } e = _
  rw [runOn_bind]
  dsimp only
  generalize runOn p room pass { s with changed := false } e = r
  rw [runOn_bind]
  change runOn p room (if r.1.2.changed then _ else _) r.1.2 r.2 = _
  split
  · rfl
  · rfl

/-- What follows the passes starts where they end, or does not start at all. -/
theorem runOn_passesThen (last pass : Walk Unit) (passes : Nat) (s : WalkState) (e : Engine) :
    runOn p room (passesThen last pass (passes + 1)) s e =
      let r := runOn p room (passesUpTo pass (passes + 1)) s e
      if r.1.2.changed then runOn p room last r.1.2 r.2 else r := by
  induction passes generalizing s e with
  | zero =>
    rw [passesUpTo, runOn_passesThen_succ, runOn_passesThen_succ]
    dsimp only
    generalize runOn p room pass { s with changed := false } e = r
    split
    · next hchanged => exact (if_pos hchanged).symm
    · rfl
  | succ passes ih =>
    rw [passesUpTo, runOn_passesThen_succ, runOn_passesThen_succ]
    dsimp only
    generalize runOn p room pass { s with changed := false } e = r
    split
    · exact ih r.1.2 r.2
    · rfl

theorem runOn_passesThen_maxPasses (last pass : Walk Unit) (s : WalkState) (e : Engine) :
    runOn p room (passesThen last pass maxPasses) s e =
      let r := runOn p room (passesUpTo pass maxPasses) s e
      if r.1.2.changed then runOn p room last r.1.2 r.2 else r :=
  runOn_passesThen last pass 7 s e

theorem runOn_settle (pass : Walk Unit) (s : WalkState) (e : Engine) :
    runOn p room (settle pass maxPasses) s e =
      let r := runOn p room (passesUpTo pass maxPasses) s e
      if r.1.2.changed then runOn p room (widenedPass pass) r.1.2 r.2 else r := by
  rw [settle_eq_passesThen, runOn_passesThen_maxPasses]

/-- When the passes through a body stop because one of them has changed no local, another pass
changes nothing at all: no local, no callee, no return and no write of the summary, and nothing
that the engine keeps or has in progress. This holds in whatever state the engine is, and however
deep the body is nested, for every body in which no name is used before it is introduced. -/
theorem pass_repeats_of_unchanged {b : Body} {ctx : BodyContext} {params : List Param}
    (hbody : b.passOf p = some (ctx, params, pass))
    (horder : NameEvent.inOrder (params.map (·.name)) b.events)
    (hstop : runOn p room (passesUpTo pass maxPasses) (ctx.declareParams {} params) e =
      (((), t), e'))
    (hunchanged : t.changed = false) :
    runOn p room (settle pass maxPasses) (ctx.declareParams {} params) e = (((), t), e') ∧
      runOn p room pass t e' = (((), t), e') := by
  constructor
  · rw [runOn_settle, hstop]
    exact if_neg (by simp [hunchanged])
  · obtain ⟨-, hends⟩ :=
      ends_of_runOn p room (passesUpTo pass maxPasses) (ctx.declareParams {} params) e
    rw [hstop] at hends
    exact runOn_of_ends
      (ends_pass_of_unchanged (Body.composed_passOf hbody) horder hends hunchanged)

def handedOn : CompilationUnit :=
  .plain [
    .plain "X" none [.plain "foo" [] "void" []],
    .plain "Y" (some "X") [.plain "foo" [] "void" []],
    .plain "M" none [
      .plain "make" [] "X" [.ret (some (Engine.newOf "Y"))],
      .plain "run" [] "void" [
        .localVar "a" (.named "X") (some (.literal .null)),
        .localVar "b" (.named "X") (some (.literal .null)),
        .expr (.assign (.name "a") (.name "b")),
        .expr (.assign (.name "b") (.call .implicit "make" [] 1)),
        .expr (Engine.onExpr (.name "a") "foo")]]]

/-- The third pass changes nothing. By then the call on `a` is known to run the method of `Y`, and a
fourth pass finds no other. -/
theorem pass_repeats_of_unchanged_handedOn :
    ∃ p b ctx params pass t e', Program.build [handedOn] {} .degrade = .ok p ∧
      p.body? (Engine.procedure "p.M" "run") = some b ∧
      b.passOf p = some (ctx, params, pass) ∧
      runOn p Engine.maxDepth (passesUpTo pass maxPasses) (ctx.declareParams {} params) {} =
        (((), t), e') ∧
      t.changed = false ∧ Engine.procedure "p.Y" "foo" ∈ t.summary.callees ∧
      runOn p Engine.maxDepth (settle pass maxPasses) (ctx.declareParams {} params) {} =
        (((), t), e') ∧
      runOn p Engine.maxDepth pass t e' = (((), t), e') := by
  obtain ⟨p, hp, h⟩ := exists_ok_of_any (Program.build [handedOn] {} .degrade)
    (fun p => (p.body? (Engine.procedure "p.M" "run")).any fun b => (b.passOf p).any fun c =>
      let last := (runOn p Engine.maxDepth (passesUpTo c.2.2 maxPasses)
        (c.1.declareParams {} c.2.1) {}).1.2
      NameEvent.inOrder (c.2.1.map (·.name)) b.events && !last.changed &&
        decide (Engine.procedure "p.Y" "foo" ∈ last.summary.callees))
    (by decide +kernel)
  obtain ⟨b, hb, h⟩ := (Option.any_eq_true _ _).mp h
  obtain ⟨⟨ctx, params, pass⟩, hpass, h⟩ := (Option.any_eq_true _ _).mp h
  simp only [Bool.and_eq_true, Bool.not_eq_true', decide_eq_true_eq] at h
  obtain ⟨⟨horder, hunchanged⟩, hcallee⟩ := h
  have hrepeats := pass_repeats_of_unchanged hpass horder rfl hunchanged
  exact ⟨p, b, ctx, params, pass, _, _, hp, hb, hpass, rfl, hunchanged, hcallee, hrepeats⟩

end BodyContext

end JavaCallGraph
