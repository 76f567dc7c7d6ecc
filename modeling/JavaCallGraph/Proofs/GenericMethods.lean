import JavaCallGraph.Proofs.OverloadChoice
import JavaCallGraph.Proofs.PlainClasses
import JavaCallGraph.Proofs.TypeRenaming

/-!
# The type parameters of generic methods

A generic method may call its own type parameters what it likes, as long as the receiver does not
bind a parameter of the same name: whether the method can be called stays the same, and so does the
type of the call. A name that the receiver binds is taken for the receiver's, even where the method
declares it anew.
-/

namespace JavaCallGraph

namespace Method

def ownVars (m : Method) : List String := m.typeParams.map TypeParam.name

def vars (m : Method) : List String := StaticType.varsList m.params ++ m.ret.vars

def rename (f : String → String) (m : Method) : Method :=
  { m with
    signature :=
      { m.signature with
        params := m.signature.params.map (Descriptor.rename f)
        ret := m.signature.ret.rename f }
    typeParams := m.typeParams.map fun p => ⟨f p.name, p.bound.map (StaticType.rename f)⟩
    params := m.params.map (StaticType.rename f)
    ret := m.ret.rename f }

/-- Type parameters of the method get new names, which neither the method nor the receiver uses. -/
structure FreshNames (m : Method) (receiver : Bindings) (f : String → String) : Prop where
  own : ∀ v, f v ≠ v → v ∈ m.ownVars
  apart : ∀ v w, f v ≠ v → f w ≠ w → f v = f w → v = w
  unused : ∀ v, f v ≠ v → f v ∉ m.ownVars ∧ f v ∉ m.vars ∧ f v ∉ receiver

variable {m : Method} {receiver : Bindings} {f : String → String}

theorem ownVars_rename (f : String → String) (m : Method) :
    (m.rename f).ownVars = m.ownVars.map f := by
  simp [ownVars, rename]

theorem FreshNames.comp_self (hf : m.FreshNames receiver f) : f ∘ f = f := by
  funext v
  by_cases hv : f v = v
  · rw [Function.comp_apply, hv, hv]
  · by_contra hmoved
    exact (hf.unused v hv).1 (hf.own (f v) hmoved)

theorem FreshNames.apart_vars (hf : m.FreshNames receiver f) :
    StaticType.Apart f (m.ownVars ++ m.vars) := by
  have hunused : ∀ v, f v ≠ v → f v ∉ m.ownVars ++ m.vars := fun v hv => by
    simp [(hf.unused v hv).1, (hf.unused v hv).2.1]
  intro v hv w hw heq
  by_cases hfv : f v = v
  · by_cases hfw : f w = w
    · rw [← hfv, heq, hfw]
    · exact absurd (heq ▸ hfv.symm ▸ hv) (hunused w hfw)
  · by_cases hfw : f w = w
    · exact absurd (heq.trans hfw ▸ hw) (heq ▸ hunused v hfv)
    · exact hf.apart v w hfv hfw heq

/-- What the receiver binds, it binds under the new names. -/
theorem FreshNames.boundAlike (hf : m.FreshNames receiver f)
    (hkept : ∀ v ∈ receiver, f v = v) (V : List String) :
    StaticType.BoundAlike f V receiver receiver := by
  intro v _
  by_cases hv : f v = v
  · rw [hv]
  · rw [Std.ExtTreeMap.getElem?_eq_none (hf.unused v hv).2.2,
      Std.ExtTreeMap.getElem?_eq_none fun hmem => hv (hkept v hmem)]

/-! ### Applicability -/

theorem fits_desc_congr (h : Hierarchy) (arg : Option StaticType) {t u : StaticType}
    (heq : t.rename f = u.rename f) : h.fits arg t.desc = h.fits arg u.desc := by
  rw [← h.fits_rename f, ← h.fits_rename f arg u.desc, ← StaticType.desc_rename,
    ← StaticType.desc_rename, heq]

theorem any_fits_element?_congr (h : Hierarchy) (arg : Option StaticType) {t u : StaticType}
    (heq : t.rename f = u.rename f) :
    (t.element?.any fun e => h.fits arg e.desc) = u.element?.any fun e => h.fits arg e.desc := by
  have hdesc : t.desc.element?.map (Descriptor.rename f) =
      u.desc.element?.map (Descriptor.rename f) := by
    rw [← Descriptor.element?_rename, ← Descriptor.element?_rename, ← StaticType.desc_rename,
      ← StaticType.desc_rename, heq]
  have hany : ∀ s : StaticType, (s.element?.any fun e => h.fits arg e.desc) =
      (s.desc.element?.map (Descriptor.rename f)).any (h.fits arg) := by
    intro s
    unfold StaticType.element?
    cases s.desc.element? with
    | none => rfl
    | some e => exact (h.fits_rename f arg e).symm
  rw [hany, hany, hdesc]

theorem rename_substitute_param (hf : m.FreshNames receiver f) (hkept : ∀ v ∈ receiver, f v = v)
    (t : StaticType) :
    ((t.rename f).substitute receiver).rename f = (t.substitute receiver).rename f :=
  StaticType.rename_substitute_rename hf.comp_self (hf.boundAlike hkept t.vars)

theorem accepts_rename (h : Hierarchy) (hf : m.FreshNames receiver f)
    (hkept : ∀ v ∈ receiver, f v = v) (count i : Nat) (arg : Option StaticType) :
    (m.rename f).accepts h receiver count i arg = m.accepts h receiver count i arg := by
  have hparams : (m.rename f).params = m.params.map (StaticType.rename f) := rfl
  have hvarargs : (m.rename f).isVarargs = m.isVarargs := rfl
  unfold accepts
  rw [hparams, hvarargs, List.length_map, List.getLast?_map, List.getElem?_map]
  split
  · cases m.params.getLast? with
    | none => rfl
    | some last =>
      have hlast := rename_substitute_param hf hkept last
      simp only [Option.map_some, fits_desc_congr h arg hlast, any_fits_element?_congr h arg hlast]
  · cases m.params[i]? with
    | none => rfl
    | some p => exact fits_desc_congr h arg (rename_substitute_param hf hkept p)

end Method

theorem Overload.fits_rename {h : Hierarchy} {args : ArgTypes} {view : StaticType} {m : Method}
    {f : String → String} (hf : m.FreshNames (h.view view m.declaring) f)
    (hkept : ∀ v ∈ h.view view m.declaring, f v = v) :
    Fits h args view (m.rename f) ↔ Fits h args view m := by
  have hparams : (m.rename f).arity = m.arity := by simp [Method.arity, Method.rename]
  have harity : (m.rename f).arityMatches args.length = m.arityMatches args.length := by
    unfold Method.arityMatches
    rw [hparams]
    rfl
  have hdeclaring : (m.rename f).declaring = m.declaring := rfl
  simp only [Fits, Method.applicable, harity, hdeclaring, Method.accepts_rename h hf hkept]

/-! ### Inferred bindings -/

namespace Resolution

def returnType (r : Resolution) : StaticType := r.method.ret.substitute r.bindings

open StaticType in
theorem boundAlike_foldl_zip {f : String → String} {V : List String}
    {step step' : Bindings → StaticType × Option StaticType → Bindings} {params : List StaticType}
    (hstep : ∀ p ∈ params, ∀ (a : Option StaticType) (b b' : Bindings), BoundAlike f V b b' →
      BoundAlike f V (step b (p, a)) (step' b' (p.rename f, a)))
    (args : ArgTypes) {b b' : Bindings} (hb : BoundAlike f V b b') :
    BoundAlike f V ((params.zip args).foldl step b)
      (((params.map (rename f)).zip args).foldl step' b') := by
  induction params generalizing args b b' with
  | nil => exact hb
  | cons p params ih =>
    cases args with
    | nil => exact hb
    | cons a args =>
      exact ih (fun q hq => hstep q (by simp [hq])) args (hstep p (by simp) a b b' hb)

theorem boundAlike_infer {m : Method} {f : String → String} {V : List String} {b b' : Bindings}
    (hf : StaticType.Apart f V) (hown : ∀ v ∈ m.ownVars, v ∈ V)
    (hparams : ∀ v ∈ StaticType.varsList m.params, v ∈ V) (hb : StaticType.BoundAlike f V b b')
    (args : ArgTypes) :
    StaticType.BoundAlike f V (infer ⟨m, b⟩ args).bindings
      (infer ⟨m.rename f, b'⟩ args).bindings := by
  have hvars : (m.rename f).typeParams.map TypeParam.name = m.ownVars.map f :=
    Method.ownVars_rename f m
  unfold infer
  rw [hvars, show m.typeParams.map TypeParam.name = m.ownVars from rfl]
  dsimp only
  rw [List.isEmpty_map]
  split
  · exact hb
  · refine boundAlike_foldl_zip (fun p hp a c c' hc => ?_) args hb
    cases a with
    | none => exact hc
    | some actual =>
      exact hc.unify hf hown fun v hv => hparams v (StaticType.mem_varsList.mpr ⟨p, hp, hv⟩)

end Resolution

/-- The type parameters that the receiver does not bind can be renamed. Whether the method can be
called does not change, and the type of the call does not either, up to the names of parameters
that the arguments leave open. -/
theorem Method.hygienic_of_unbound {h : Hierarchy} {view : StaticType} {m : Method}
    {f : String → String} (hf : m.FreshNames (h.view view m.declaring) f)
    (hkept : ∀ v ∈ h.view view m.declaring, f v = v) (args : ArgTypes) :
    (Overload.Fits h args view (m.rename f) ↔ Overload.Fits h args view m) ∧
    (Resolution.infer ⟨m.rename f, h.view view m.declaring⟩ args).returnType.rename f =
      (Resolution.infer ⟨m, h.view view m.declaring⟩ args).returnType.rename f ∧
    ((∀ v ∈ m.ret.vars, v ∈ (Resolution.infer ⟨m, h.view view m.declaring⟩ args).bindings) →
      (Resolution.infer ⟨m.rename f, h.view view m.declaring⟩ args).returnType =
        (Resolution.infer ⟨m, h.view view m.declaring⟩ args).returnType) := by
  have hown : ∀ v ∈ m.ownVars, v ∈ m.ownVars ++ m.vars := by simp +contextual
  have hparams : ∀ v ∈ StaticType.varsList m.params, v ∈ m.ownVars ++ m.vars := by
    simp +contextual [vars]
  have halike := Resolution.boundAlike_infer hf.apart_vars hown hparams
    (hf.boundAlike hkept (m.ownVars ++ m.vars)) args
  have hret : ∀ v ∈ m.ret.vars, v ∈ m.ownVars ++ m.vars := by simp +contextual [vars]
  unfold Resolution.returnType
  rw [Overload.method_infer, Overload.method_infer]
  refine ⟨Overload.fits_rename hf hkept, ?_, fun hbound => ?_⟩
  · exact StaticType.rename_substitute_rename hf.comp_self fun v hv => halike v (hret v hv)
  · exact StaticType.substitute_rename_of_bound fun v hv => ⟨halike v (hret v hv), hbound v hv⟩

/-! ### A parameter that shadows one of the class -/

namespace Method

variable {m : Method} {receiver : Bindings} {old new : String}

def renameOne (old new : String) (v : String) : String := if v = old then new else v

theorem FreshNames.one (hown : old ∈ m.ownVars)
    (hnew : new ∉ m.ownVars ∧ new ∉ m.vars ∧ new ∉ receiver) :
    m.FreshNames receiver (renameOne old new) := by
  have hmoved : ∀ v, renameOne old new v ≠ v → v = old := by
    intro v hv
    by_contra hne
    exact hv (if_neg hne)
  refine ⟨fun v hv => hmoved v hv ▸ hown, fun v w hv hw _ => ?_, fun v hv => ?_⟩
  · rw [hmoved v hv, hmoved w hw]
  · rw [hmoved v hv, renameOne, if_pos rfl]
    exact hnew

/-- Type parameters of the method can be renamed to fresh names. -/
def Hygienic (h : Hierarchy) (view : StaticType) (m : Method) : Prop :=
  ∀ f args, m.FreshNames (h.view view m.declaring) f →
    (Overload.Fits h args view (m.rename f) ↔ Overload.Fits h args view m) ∧
    (Resolution.infer ⟨m.rename f, h.view view m.declaring⟩ args).returnType.rename f =
      (Resolution.infer ⟨m, h.view view m.declaring⟩ args).returnType.rename f

/-- `class Box<T> { <T> void put(T x) {} <U> U pair(T x, U y) {} }` -/
def boxes : CompilationUnit :=
  .plain [.plain "A" none [], .plain "C" none [],
    { TypeDecl.plain "Box" none
        [{ MethodDecl.plain "put" [("T", "x")] "void" [] with typeParams := [⟨"T", none⟩] },
          { MethodDecl.plain "pair" [("T", "x"), ("U", "y")] "U" [] with
            typeParams := [⟨"U", none⟩] }] with
      typeParams := [⟨"T", none⟩] }]

def boxOfA : StaticType := ⟨.reference "p.Box", [.reference "p.A"]⟩

def objects (types : List String) : ArgTypes := types.map fun type => some (.reference type)

/-- The second method may call its parameter `V`; the call still gives the type of the second
argument. -/
theorem hygienic_of_unbound_pair :
    ∃ p, Program.build [boxes] {} .degrade = .ok p ∧ ∃ m, p.methodAt? "p.Box" 1 = some m ∧
      Overload.Fits p.hierarchy (objects ["p.A", "p.C"]) boxOfA (m.rename (renameOne "U" "V")) ∧
      (Resolution.infer ⟨m.rename (renameOne "U" "V"), p.hierarchy.view boxOfA m.declaring⟩
        (objects ["p.A", "p.C"])).returnType.desc = .reference "p.C" := by
  obtain ⟨p, hp, hm⟩ := exists_ok_of_any (Program.build [boxes] {} .degrade)
    (fun p => (p.methodAt? "p.Box" 1).any fun m : Method =>
      decide (("U" ∈ m.ownVars ∧ "V" ∉ m.ownVars ∧ "V" ∉ m.vars ∧
          "V" ∉ p.hierarchy.view boxOfA m.declaring) ∧
        "U" ∉ p.hierarchy.view boxOfA m.declaring ∧
        Overload.Fits p.hierarchy (objects ["p.A", "p.C"]) boxOfA m ∧
        m.ret.vars = ["U"] ∧
        "U" ∈ (Resolution.infer ⟨m, p.hierarchy.view boxOfA m.declaring⟩
          (objects ["p.A", "p.C"])).bindings ∧
        (Resolution.infer ⟨m, p.hierarchy.view boxOfA m.declaring⟩
          (objects ["p.A", "p.C"])).returnType.desc = .reference "p.C"))
    (by decide +kernel)
  obtain ⟨m, hm, hfacts⟩ := (Option.any_eq_true _ _).mp hm
  obtain ⟨⟨hown, hnew⟩, hunbound, hfits, hvars, hbound, htype⟩ := of_decide_eq_true hfacts
  have hkept : ∀ v ∈ p.hierarchy.view boxOfA m.declaring, renameOne "U" "V" v = v := by
    intro v hv
    have hne : v ≠ "U" := fun hu => hunbound (hu ▸ hv)
    exact if_neg hne
  obtain ⟨hsame, -, hret⟩ := hygienic_of_unbound (FreshNames.one hown hnew) hkept
    (objects ["p.A", "p.C"])
  refine ⟨p, hp, m, hm, hsame.mpr hfits, ?_⟩
  rw [hret (by simpa [hvars] using hbound), htype]

/-- On a `Box<A>` the first method does not take a `C`. Were its parameter not called `T`, it
would. -/
theorem not_hygienic_put :
    ∃ p, Program.build [boxes] {} .degrade = .ok p ∧ ∃ m, p.methodAt? "p.Box" 0 = some m ∧
      ¬ Hygienic p.hierarchy boxOfA m := by
  obtain ⟨p, hp, hm⟩ := exists_ok_of_any (Program.build [boxes] {} .degrade)
    (fun p => (p.methodAt? "p.Box" 0).any fun m : Method =>
      decide (("T" ∈ m.ownVars ∧ "V" ∉ m.ownVars ∧ "V" ∉ m.vars ∧
          "V" ∉ p.hierarchy.view boxOfA m.declaring) ∧
        Overload.Fits p.hierarchy (objects ["p.C"]) boxOfA (m.rename (renameOne "T" "V")) ∧
        ¬ Overload.Fits p.hierarchy (objects ["p.C"]) boxOfA m))
    (by decide +kernel)
  obtain ⟨m, hm, hfacts⟩ := (Option.any_eq_true _ _).mp hm
  obtain ⟨⟨hown, hnew⟩, hrenamed, hshadowed⟩ := of_decide_eq_true hfacts
  refine ⟨p, hp, m, hm, fun hhygienic => hshadowed ?_⟩
  exact (hhygienic _ (objects ["p.C"]) (FreshNames.one hown hnew)).1.mp hrenamed

end Method

end JavaCallGraph
