import JavaCallGraph.Proofs.DeclaredBounds
import JavaCallGraph.Proofs.DirectBodies

/-!
# The limit on the passes

When `maxPasses` passes through a body have all changed a local, the locals are widened and one
more pass is the last. It is compared with passes that go on. Nothing that has a body is missed if
the calls are direct, and if what the locals would still get is allowed by their declared types.
The declared types are all that widening knows of, so a local of type `Object` gets nothing. Where
the text of the body assigns to its locals only what their declared types allow, the second
condition holds for any number of passes.
-/

namespace JavaCallGraph

open Walk BodyContext

namespace WalkState

variable {s t : WalkState} {types : LocalTypes} {h : Hierarchy}

def localTypes (s : WalkState) : LocalTypes := fun name => s.locals[name]?.map Local.type

/-- What a local holds later it holds already, or its declared type allows it. -/
def covers (h : Hierarchy) (s later : WalkState) : Bool :=
  later.locals.toList.all fun entry => s.locals[entry.1]?.any fun known =>
    entry.2.set.types.toList.all fun t => decide (t ∈ known.set.types) ||
      entry.2.type.any fun type => decide (t ∈ (ConstraintSet.ofType h type).types)

theorem covers_of_conforms (hnames : ∀ name ∈ t.locals, name ∈ s.locals)
    (ht : t.Conforms h types) : s.covers h t := by
  refine List.all_eq_true.mpr fun ⟨name, l⟩ hentry => ?_
  have hl := Std.ExtTreeMap.mem_toList_iff_getElem?_eq_some.mp hentry
  have hname := hnames name (Std.ExtTreeMap.mem_iff_isSome_getElem?.mpr (by simp [hl]))
  obtain ⟨known, hknown⟩ :=
    Option.isSome_iff_exists.mp (Std.ExtTreeMap.mem_iff_isSome_getElem?.mp hname)
  refine (Option.any_eq_true _ _).mpr ⟨known, hknown, List.all_eq_true.mpr fun t ht' => ?_⟩
  have hallowed := ConstraintSet.isWithin_iff.mp (ht name l hl).2 t
    (Std.ExtTreeSet.mem_toList.mp ht')
  rw [Bool.or_eq_true]
  refine .inr ?_
  dsimp only
  cases htype : l.type with
  | none =>
    rw [htype] at hallowed
    exact absurd hallowed Std.ExtTreeSet.not_mem_empty
  | some type =>
    rw [htype] at hallowed
    exact decide_eq_true hallowed

theorem hasTypes_widen (hs : s.HasTypes types) : s.widen.HasTypes types := by
  intro name
  rw [← hs name, widen, Std.ExtTreeMap.getElem?_map, Option.map_map]
  rfl

theorem admits_widen (hcovers : s.covers h t) : s.widen.Admits h t := by
  intro name l hl
  have hentry := List.all_eq_true.mp hcovers (name, l)
    (Std.ExtTreeMap.mem_toList_iff_getElem?_eq_some.mpr hl)
  obtain ⟨known, hknown, htypes⟩ := (Option.any_eq_true _ _).mp hentry
  refine ⟨{ known with assigned := true, set := { known.set with unresolved := true } }, ?_, rfl,
    fun t ht => ?_⟩
  · rw [widen, Std.ExtTreeMap.getElem?_map, hknown]
    rfl
  · have hmem := List.all_eq_true.mp htypes t (Std.ExtTreeSet.mem_toList.mpr ht)
    simpa [Option.any_eq_true] using hmem

end WalkState

namespace BodyContext

variable {answers : Question → Option (Option ConstraintSet)} {events : List NameEvent}
  {pass : Walk Unit} {passes : Nat} {s t : WalkState}

theorem passesUpTo_add (pass : Walk Unit) (passes more : Nat) :
    passesUpTo pass (passes + more) = passesThen (passesUpTo pass more) pass passes := by
  induction passes with
  | zero => rw [Nat.zero_add, passesThen]
  | succ passes ih => rw [Nat.succ_add, passesUpTo, passesThen, passesThen, ← ih, passesUpTo]

theorem locals_le_passesUpTo (hpass : Composed events pass)
    (h : ends answers (passesUpTo pass passes) s = some ((), t)) (name : String) (l : Local)
    (hl : s.locals[name]? = some l) : ∃ l', t.locals[name]? = some l' ∧ l ≤ l' := by
  induction passes generalizing s l with
  | zero =>
    cases h
    exact ⟨l, hl, le_rfl⟩
  | succ passes ih =>
    rw [passesUpTo, ends_passesThen_succ, Option.bind_eq_some_iff] at h
    obtain ⟨⟨⟨⟩, m⟩, hm, h⟩ := h
    obtain ⟨l', hl', hle⟩ := (hpass.growth hm).1.locals name l hl
    dsimp only at h
    split at h
    · obtain ⟨l'', hl'', hle'⟩ := ih h l' hl'
      exact ⟨l'', hl'', hle.trans hle'⟩
    · cases h
      exact ⟨l', hl', hle⟩

theorem mem_locals_of_passesUpTo (hpass : Composed events pass)
    (h : ends answers (passesUpTo pass passes) s = some ((), t)) {name : String}
    (hname : name ∈ t.locals) : name ∈ s.locals ∨ .introduce name ∈ events := by
  induction passes generalizing s with
  | zero =>
    cases h
    exact .inl hname
  | succ passes ih =>
    rw [passesUpTo, ends_passesThen_succ, Option.bind_eq_some_iff] at h
    obtain ⟨⟨⟨⟩, m⟩, hm, h⟩ := h
    have hnames := (hpass.growth hm).2 name
    dsimp only at h
    split at h
    · exact (ih h).elim hnames.mp .inr
    · cases h
      exact hnames.mp hname

/-- The passes of the second walk against one pass of the third, all compared with one of the
first. -/
theorem callees_passesUpTo {K : Comparison} {s₁ s₂ s₃ t₁ t₂ t₃ : WalkState}
    (hpass : Composed events pass) (htracks : K.Tracks (fun _ _ _ => True) pass pass pass)
    (hs₁ : s₁.HasTypes K.types) (hs₂ : s₂.HasTypes K.types) (hs₃ : s₃.HasTypes K.types)
    (hreference : ends K.reference pass s₁ = some ((), t₁))
    (hlong : ends K.long (passesUpTo pass passes) s₂ = some ((), t₂))
    (hwide : ends K.wide pass s₃ = some ((), t₃)) (hadmits : s₃.Admits K.program.hierarchy t₂) :
    ∀ c ∈ t₂.summary.callees,
      c ∈ s₂.summary.callees ∨ c ∈ t₃.summary.callees ∨ K.program.index.HasAbstract c := by
  induction passes generalizing s₂ with
  | zero =>
    cases hlong
    exact fun _ => .inl
  | succ passes ih =>
    rw [passesUpTo, ends_passesThen_succ, Option.bind_eq_some_iff] at hlong
    obtain ⟨⟨⟨⟩, m⟩, hm, hlong⟩ := hlong
    obtain ⟨-, hmoves⟩ :=
      htracks s₁ { s₂ with changed := false } s₃ t₁ m t₃ _ _ _ hs₁ hs₂ hs₃ hreference hm hwide
    dsimp only at hlong
    split at hlong
    · intro c hc
      rcases ih hmoves.types₂ hlong c hc with hmid | hlater
      · exact hmoves.callees (hadmits.of_locals (locals_le_passesUpTo hpass hlong)) c hmid
      · exact .inr hlater
    · cases hlong
      exact hmoves.callees hadmits

/-- A pass that follows on another one introduces no locals. -/
theorem hasTypes_of_pass_after {answers' : Question → Option (Option ConstraintSet)}
    {last : WalkState} (hpass : Composed events pass)
    (hlast : ends answers' (passesUpTo pass (passes + 1)) s = some ((), last))
    (h : ends answers pass { last with changed := false } = some ((), t)) :
    WalkState.HasTypes t.localTypes { last with changed := false } ∧
      ∀ name, .introduce name ∈ events → (t.localTypes name).isSome := by
  obtain ⟨before, hbefore, -⟩ := exists_last_pass hpass hlast
  obtain ⟨hextends, hnames⟩ := hpass.growth h
  have hold : ∀ name, name ∈ t.locals → name ∈ last.locals := by
    intro name hname
    rcases (hnames name).mp hname with hlocal | hintroduced
    · exact hlocal
    · exact ((hpass.growth hbefore).2 name).mpr (.inr hintroduced)
  refine ⟨fun name => (WalkState.type_of_extends hextends hold name).symm, fun name hname => ?_⟩
  have hmem := (hnames name).mpr (.inr hname)
  rw [Std.ExtTreeMap.mem_iff_isSome_getElem?] at hmem
  exact Option.isSome_map.trans hmem

/-! ### On the engine -/

variable {p : Program} {room : Nat} {e e' : Engine}

theorem runOn_widenedPass (pass : Walk Unit) (s : WalkState) (e : Engine) :
    runOn p room (widenedPass pass) s e =
      runOn p room pass { s.widen with changed := false } e := by
  rw [widenedPass, runOn_bind]
  rfl

/-- If passes have all changed a local, the last of them starts where the others end. -/
theorem exists_last_run
    (h : runOn p room (passesUpTo pass (passes + 1 + 1)) s e = (((), t), e')) (ht : t.changed) :
    ∃ u f, runOn p room (passesUpTo pass (passes + 1)) s e = (((), u), f) ∧
      runOn p room pass { u with changed := false } f = (((), t), e') := by
  rw [passesUpTo_add, runOn_passesThen] at h
  generalize runOn p room (passesUpTo pass (passes + 1)) s e = r at h ⊢
  dsimp only at h
  split at h
  · rw [passesUpTo, runOn_passesThen_succ] at h
    refine ⟨r.1.2, r.2, rfl, ?_⟩
    dsimp only at h
    split at h
    · exact h
    · exact h
  · next hstopped =>
    rw [h] at hstopped
    exact absurd ht hstopped

/-- If the text of a body keeps to the declared types of its locals, then these allow whatever the
locals get from more passes. -/
theorem covers_of_allConform {units : List CompilationUnit} {library : Library}
    {policy : CyclePolicy} (hp : Program.build units library policy = .ok p) {b : Body}
    {ctx : BodyContext} {params : List Param} (hbody : b.passOf p = some (ctx, params, pass))
    {types : LocalTypes} (hparams : ctx.declares types params)
    (htext : Stmt.allConform ctx types b.statements) {n : Nat} {f : Engine}
    (hlimit : runOn p room (passesUpTo pass maxPasses) (ctx.declareParams {} params) f =
      (((), s), e))
    (hmore : runOn p room (passesUpTo pass (maxPasses + n)) (ctx.declareParams {} params) f =
      (((), t), e')) :
    s.covers p.hierarchy t := by
  obtain ⟨nodes, hb, -⟩ := Program.build_hierarchy_of_build hp
  have hpass := Body.composed_passOf hbody
  obtain ⟨hprogram, -⟩ := Body.keeps_passOf hbody
  subst hprogram
  have hstart : (ctx.declareParams {} params).Conforms ctx.program.hierarchy types :=
    WalkState.Conforms.declareParams (fun name l hl => by simp at hl) hparams
  have hs := (ends_of_runOn ctx.program room (passesUpTo pass maxPasses)
    (ctx.declareParams {} params) f).2
  have ht := (ends_of_runOn ctx.program room (passesUpTo pass (maxPasses + n))
    (ctx.declareParams {} params) f).2
  rw [hlimit] at hs
  rw [hmore] at ht
  have hconforms :=
    conforms_passesUpTo (Body.conforms_passOf hb hbody htext) _ _ _ _ _ ht hstart
  refine WalkState.covers_of_conforms (fun name hname => ?_) hconforms.1
  obtain ⟨last, hlast, hold⟩ := exists_last_pass hpass hs
  refine ((hpass.growth hlast).2 name).mpr ?_
  exact (mem_locals_of_passesUpTo hpass ht hname).imp_left (hold name)

/-- Passes that go on without widening against the one pass that follows on it. -/
theorem callees_of_widened {b : Body} {ctx : BodyContext} {params : List Param} {n : Nat}
    {start w : WalkState} {f longer wide : Engine} (hbody : b.passOf p = some (ctx, params, pass))
    (hdirect : b.direct s.localTypes)
    (hs : runOn p room (passesUpTo pass (passes + 1 + 1)) start f = (((), s), e))
    (hchanged : s.changed) (ht : runOn p room (passesUpTo pass n) s e = (((), t), longer))
    (hcovers : s.covers p.hierarchy t)
    (hw : runOn p room pass { s.widen with changed := false } e = (((), w), wide)) :
    ∀ c ∈ t.summary.callees, c ∈ w.summary.callees ∨ p.index.HasAbstract c := by
  have hpass := Body.composed_passOf hbody
  obtain ⟨last, f', hlast, hs'⟩ := exists_last_run hs hchanged
  have hlastEnds := (ends_of_runOn p room (passesUpTo pass (passes + 1)) start f).2
  have hreference := (ends_of_runOn p room pass { last with changed := false } f').2
  obtain ⟨hlonger, hlong⟩ := ends_of_runOn p room (passesUpTo pass n) s e
  obtain ⟨hwider, hwide⟩ := ends_of_runOn p room pass { s.widen with changed := false } e
  rw [hlast] at hlastEnds
  rw [hs'] at hreference
  rw [ht] at hlonger hlong
  rw [hw] at hwider hwide
  obtain ⟨htypes, hintroduces⟩ := hasTypes_of_pass_after hpass hlastEnds hreference
  have hwideTypes : WalkState.HasTypes s.localTypes { s.widen with changed := false } :=
    WalkState.hasTypes_widen fun _ => rfl
  let K : Comparison :=
    { program := p, types := s.localTypes, reference := Engine.known p room e
      long := Engine.known p room longer, wide := Engine.known p room wide
      reference_long := hlonger.known, reference_wide := hwider.known }
  have htracks : K.Tracks (fun _ _ _ => True) pass pass pass :=
    Body.tracks_passOf hbody hdirect hintroduces
  intro c hc
  rcases callees_passesUpTo hpass htracks htypes (fun _ => rfl) hwideTypes hreference hlong hwide
    (WalkState.admits_widen hcovers) c hc with hbefore | hfound | habstract
  · exact .inl ((hpass.growth hwide).1.summary.2.2 c hbefore)
  · exact .inl hfound
  · exact .inr habstract

/-- The limit on the passes loses no callee that has a body. If the calls of a body are made on
locals or on fixed values and with steady arguments, and if its locals would get nothing from `n`
more passes but what their declared types allow, then the passes up to the limit together with the
one on widened locals find every callee that the longer run finds, except for abstract methods.
This holds in whatever state the engine is, and however deep the body is nested. -/
theorem callees_settle_of_direct {b : Body} {ctx : BodyContext} {params : List Param} {n : Nat}
    {f : Engine} (hbody : b.passOf p = some (ctx, params, pass))
    (hlimit : runOn p room (passesUpTo pass maxPasses) (ctx.declareParams {} params) f =
      (((), s), e))
    (hmore : runOn p room (passesUpTo pass (maxPasses + n)) (ctx.declareParams {} params) f =
      (((), t), e'))
    (hdirect : b.direct s.localTypes) (hcovers : s.covers p.hierarchy t) :
    ∀ c ∈ t.summary.callees,
      c ∈ (runOn p room (settle pass maxPasses)
        (ctx.declareParams {} params) f).1.2.summary.callees ∨ p.index.HasAbstract c := by
  rw [passesUpTo_add, runOn_passesThen_maxPasses, hlimit] at hmore
  rw [runOn_settle, hlimit]
  dsimp only at hmore ⊢
  by_cases hchanged : s.changed
  · rw [if_pos hchanged] at hmore
    rw [if_pos hchanged, runOn_widenedPass]
    exact callees_of_widened hbody hdirect hlimit hchanged hmore hcovers rfl
  · -- The passes have stopped by themselves, and there is nothing more to find.
    rw [if_neg hchanged] at hmore
    rw [if_neg hchanged]
    cases hmore
    exact fun _ => .inl

/-- An object gets from `j` to `a`, by one local in each pass, and has a method called there. -/
def longChain (type : String) : CompilationUnit :=
  let names := ["a", "b", "c", "d", "e", "f", "g", "h", "i", "j"]
  .plain [
    .plain "X" none [.plain "finalize" [] "void" []],
    .plain "Y" (some "X") [.plain "finalize" [] "void" []],
    .plain "M" none [.plain "run" [] "void" (
      (names.map fun name => .localVar name (.named type) (some (.literal .null))) ++
      names.zipWith (fun name next => .expr (.assign (.name name) (.name next))) names.tail ++
      [.expr (.assign (.name "j") (Engine.newOf "Y")),
        .expr (Engine.onExpr (.name "a") "finalize")])]]

def chainTypes : LocalTypes := fun _ => some (some (.reference "p.X"))

/-- Ten passes lead the object to `a`, and widening finds the method that is called there. -/
theorem callees_settle_of_direct_longChain :
    ∃ p b ctx params pass s t e e', Program.build [longChain "X"] {} .degrade = .ok p ∧
      p.body? (Engine.procedure "p.M" "run") = some b ∧ b.passOf p = some (ctx, params, pass) ∧
      runOn p Engine.maxDepth (passesUpTo pass maxPasses) (ctx.declareParams {} params) {} =
        (((), s), e) ∧
      runOn p Engine.maxDepth (passesUpTo pass (maxPasses + 3)) (ctx.declareParams {} params) {} =
        (((), t), e') ∧
      s.changed ∧ Engine.procedure "p.Y" "finalize" ∉ s.summary.callees ∧
      t.changed = false ∧ Engine.procedure "p.Y" "finalize" ∈ t.summary.callees ∧
      ∀ c ∈ t.summary.callees, c ∈ (runOn p Engine.maxDepth (settle pass maxPasses)
        (ctx.declareParams {} params) {}).1.2.summary.callees ∨ p.index.HasAbstract c := by
  obtain ⟨p, hp, h⟩ := exists_ok_of_any (Program.build [longChain "X"] {} .degrade)
    (fun p => (p.body? (Engine.procedure "p.M" "run")).any fun b => (b.passOf p).any fun c =>
      let start := c.1.declareParams {} c.2.1
      let s := (runOn p Engine.maxDepth (passesUpTo c.2.2 maxPasses) start {}).1.2
      let t := (runOn p Engine.maxDepth (passesUpTo c.2.2 (maxPasses + 3)) start {}).1.2
      c.1.declares chainTypes c.2.1 && Stmt.allConform c.1 chainTypes b.statements &&
        b.direct s.localTypes && s.changed &&
        decide (Engine.procedure "p.Y" "finalize" ∉ s.summary.callees) && !t.changed &&
        decide (Engine.procedure "p.Y" "finalize" ∈ t.summary.callees))
    (by decide +kernel)
  obtain ⟨b, hb, h⟩ := (Option.any_eq_true _ _).mp h
  obtain ⟨⟨ctx, params, pass⟩, hpass, h⟩ := (Option.any_eq_true _ _).mp h
  simp only [Bool.and_eq_true, Bool.not_eq_true', decide_eq_true_eq] at h
  obtain ⟨⟨⟨⟨⟨⟨hparams, htext⟩, hdirect⟩, hchanged⟩, hearly⟩, hunchanged⟩, hlate⟩ := h
  exact ⟨p, b, ctx, params, pass, _, _, _, _, hp, hb, hpass, rfl, rfl, hchanged, hearly,
    hunchanged, hlate, callees_settle_of_direct hpass rfl rfl hdirect
      (covers_of_allConform hp hpass hparams htext rfl rfl)⟩

def rootClass : CompilationUnit :=
  { CompilationUnit.plain [
      { TypeDecl.plain "Object" none [.plain "finalize" [] "void" []] with
        name := Descriptor.objectName }] with
    path := "Object.java", package := some "java.lang" }

/-- The declared type of the locals allows nothing below `Object`, so the method is lost. -/
theorem callees_settle_lost_object :
    ∃ p b ctx params pass,
      Program.build [rootClass, longChain Descriptor.objectName] {} .degrade = .ok p ∧
      p.body? (Engine.procedure "p.M" "run") = some b ∧ b.passOf p = some (ctx, params, pass) ∧
      (runOn p Engine.maxDepth (passesUpTo pass (maxPasses + 3)) (ctx.declareParams {} params)
        {}).1.2.changed = false ∧
      Engine.procedure "p.Y" "finalize" ∈ (runOn p Engine.maxDepth
        (passesUpTo pass (maxPasses + 3)) (ctx.declareParams {} params) {}).1.2.summary.callees ∧
      Engine.procedure "p.Y" "finalize" ∉ (runOn p Engine.maxDepth (settle pass maxPasses)
        (ctx.declareParams {} params) {}).1.2.summary.callees := by
  obtain ⟨p, hp, h⟩ := exists_ok_of_any
    (Program.build [rootClass, longChain Descriptor.objectName] {} .degrade)
    (fun p => (p.body? (Engine.procedure "p.M" "run")).any fun b => (b.passOf p).any fun c =>
      let start := c.1.declareParams {} c.2.1
      let t := (runOn p Engine.maxDepth (passesUpTo c.2.2 (maxPasses + 3)) start {}).1.2
      let w := (runOn p Engine.maxDepth (settle c.2.2 maxPasses) start {}).1.2
      !t.changed && decide (Engine.procedure "p.Y" "finalize" ∈ t.summary.callees) &&
        decide (Engine.procedure "p.Y" "finalize" ∉ w.summary.callees))
    (by decide +kernel)
  obtain ⟨b, hb, h⟩ := (Option.any_eq_true _ _).mp h
  obtain ⟨⟨ctx, params, pass⟩, hpass, h⟩ := (Option.any_eq_true _ _).mp h
  simp only [Bool.and_eq_true, Bool.not_eq_true', decide_eq_true_eq] at h
  exact ⟨p, b, ctx, params, pass, hp, hb, hpass, h.1.1, h.1.2, h.2⟩

end BodyContext

end JavaCallGraph
