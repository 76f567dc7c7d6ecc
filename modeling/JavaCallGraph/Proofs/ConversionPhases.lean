import JavaCallGraph.Proofs.OverloadCycles

/-!
# Overloads that need no boxing

A method may take its arguments as they are, by subtyping and widening alone, or only by boxing,
unboxing or as elements of its variable arguments. Selection makes no such difference: the most
specific method wins, whichever way it takes the arguments. So a method that needs no such
conversion may lose to one that does. This happens only by a few patterns of parameter types, and
where none of them occurs the methods that need no conversion are chosen among themselves.
-/

namespace JavaCallGraph

namespace Descriptor

def takesArrays (d : Descriptor) : Bool :=
  d.element?.isSome || d.referenceName?.any Hierarchy.arraySupertypes.contains

theorem eq_array_of_element? {d e : Descriptor} (he : d.element? = some e) : d = .array e := by
  cases d <;> simp_all [element?]

end Descriptor

namespace Hierarchy

variable {h : Hierarchy} {t d e : Descriptor}

/-- Conversion by identity, subtyping and widening. -/
def strictlyAssignable (h : Hierarchy) : Descriptor → Descriptor → Bool
  | .primitive p, .primitive q => p.widensTo q
  | .reference a, .reference b => h.isSubtype a b
  | .array _, .reference r => arraySupertypes.contains r
  | .array (.primitive p), .array (.primitive q) => p == q
  | .array x, .array y => h.strictlyAssignable x y
  | _, _ => false

/-- An argument of type `t` converts to `d` by boxing or unboxing and to `e` without, and yet `d`
converts to `e`. -/
def undercuts (h : Hierarchy) : Descriptor → Descriptor → Descriptor → Bool
  | .primitive p, .reference wrapper, .primitive q =>
    p.wrapper?.any (h.isSubtype · wrapper) && p.widensTo q &&
      (Primitive.ofWrapper? wrapper).any (·.widensTo q)
  | .reference wrapper, .primitive q, .reference s =>
    (Primitive.ofWrapper? wrapper).any (·.widensTo q) && h.isSubtype wrapper s &&
      q.wrapper?.any (h.isSubtype · s)
  | .array x, .array y, .reference s =>
    h.assignable x y && !h.strictlyAssignable x y && arraySupertypes.contains s
  | .array x, .array y, .array z => h.undercuts x y z
  | _, _, _ => false

theorem strictlyAssignable_array_iff {x y : Descriptor} :
    h.strictlyAssignable (.array x) (.array y) ↔
      (∃ p, x = .primitive p ∧ y = .primitive p) ∨
        ¬ (x.isPrimitive ∧ y.isPrimitive) ∧ h.strictlyAssignable x y := by
  cases x <;> cases y <;> simp [strictlyAssignable, Descriptor.isPrimitive]
  exact eq_comm

theorem assignable_of_strictlyAssignable (hstrict : h.strictlyAssignable t d) :
    h.assignable t d := by
  induction t generalizing d with
  | primitive p => cases d <;> simp_all [strictlyAssignable, assignable]
  | reference a => cases d <;> simp_all [strictlyAssignable, assignable]
  | array x ih =>
    cases d with
    | array y =>
      rw [strictlyAssignable_array_iff] at hstrict
      exact assignable_array_iff.mpr (hstrict.imp_right fun hxy => ⟨hxy.1, ih hxy.2⟩)
    | _ => simp_all [strictlyAssignable, assignable]
  | typeVar name => simp [strictlyAssignable] at hstrict

theorem strictlyAssignable_of_known {a b : String} (ha : h.Known (.reference a))
    (hb : h.Known (.reference b)) (hab : h.assignable (.reference a) (.reference b)) :
    h.strictlyAssignable (.reference a) (.reference b) := by
  simp_all [Known, assignable, strictlyAssignable]

theorem undercuts_of_assignable (ht : h.Known t) (hd : h.Known d) (htd : h.assignable t d)
    (hloose : ¬ h.strictlyAssignable t d) (hte : h.strictlyAssignable t e)
    (hde : h.assignable d e) : h.undercuts t d e := by
  induction t generalizing d e with
  | primitive p =>
    cases d with
    | primitive q => exact absurd htd hloose
    | reference r => cases e <;> simp_all [assignable, strictlyAssignable, undercuts]
    | array y => simp [assignable] at htd
    | typeVar name => simp [Known] at hd
  | reference r =>
    cases d with
    | primitive q => cases e <;> simp_all [assignable, strictlyAssignable, undercuts]
    | reference s => exact absurd (strictlyAssignable_of_known ht hd htd) hloose
    | array y => simp [assignable] at htd
    | typeVar name => simp [Known] at hd
  | array x ih =>
    cases d with
    | primitive q => simp [assignable] at htd
    | reference s => exact absurd htd hloose
    | typeVar name => simp [Known] at hd
    | array y =>
      rw [strictlyAssignable_array_iff, not_or] at hloose
      obtain ⟨hprim, hxy⟩ := (assignable_array_iff.mp htd).resolve_left hloose.1
      have hloose : ¬ h.strictlyAssignable x y := fun hxy => hloose.2 ⟨hprim, hxy⟩
      cases e with
      | array z =>
        have hxz : h.strictlyAssignable x z := by
          rcases strictlyAssignable_array_iff.mp hte with ⟨p, rfl, rfl⟩ | ⟨-, hxz⟩
          · exact Primitive.widensTo_refl p
          · exact hxz
        have hyz : h.assignable y z := by
          rcases assignable_array_iff.mp hde with ⟨p, rfl, rfl⟩ | ⟨-, hyz⟩
          · exact Primitive.widensTo_refl p
          · exact hyz
        exact ih ht hd hxy hloose hxz hyz
      | reference s => simp_all [strictlyAssignable, undercuts]
      | _ => simp [strictlyAssignable] at hte
  | typeVar name => simp [Known] at ht

theorem takesArrays_of_assignable (he : h.Known e) (hconv : h.assignable (.array d) e) :
    e.takesArrays := by
  cases e with
  | reference s =>
    have hs : arraySupertypes.contains s := by simpa [assignable] using hconv
    rw [Descriptor.takesArrays, Descriptor.referenceName?, Option.any_some, hs, Bool.or_true]
  | array y => rfl
  | primitive q => simp [assignable] at hconv
  | typeVar name => simp [Known] at he

end Hierarchy

/-- A type without type variables is not changed by substitution. -/
theorem StaticType.desc_substitute {h : Hierarchy} {t : StaticType} (ht : h.Known t.desc)
    (bindings : Bindings) : (t.substitute bindings).desc = t.desc := by
  obtain ⟨desc, args⟩ := t
  rw [substitute]
  generalize substituteList bindings args = newArgs
  induction desc with
  | array e ih => exact congrArg Descriptor.array (ih ht)
  | typeVar name => simp [Hierarchy.Known] at ht
  | _ => rfl

namespace Method

variable {h : Hierarchy} {m k : Method} {args : ArgTypes} {bindings : Bindings} {t : StaticType}
  {j : Nat}

def strictAt (h : Hierarchy) (m : Method) (args : ArgTypes) (bindings : Bindings) (j : Nat) :
    Bool :=
  args[j]?.any fun arg => arg.any fun t => m.params[j]?.any fun p =>
    h.strictlyAssignable t.desc (p.substitute bindings).desc

/-- The parameter types by which `k`, which takes the argument at place `j` by boxing, by unboxing
or as an element of its variable arguments, is still as specific there as `m`. -/
def undercutsAt (h : Hierarchy) (k m : Method) (args : ArgTypes) (j : Nat) : Bool :=
  args[j]?.any fun arg => arg.any fun t => k.params[j]?.any fun p => m.params[j]?.any fun q =>
    !h.Known p.desc || !h.Known q.desc || h.undercuts t.desc p.desc q.desc ||
      (k.isVarargs && j + 1 == k.params.length && p.desc.element?.any (h.assignable t.desc) &&
        q.desc.takesArrays)

theorem accepts_of_applicable (happ : m.applicable h args bindings) {arg : Option StaticType}
    (harg : args[j]? = some arg) : m.accepts h bindings args.length j arg := by
  simp only [applicable, List.all_eq_true] at happ
  exact happ (arg, j) (List.mem_zipIdx_iff_getElem?.mpr harg)

/-- With one argument for each parameter, an argument is taken by its own parameter or as the only
element of the variable arguments. -/
theorem accepts_iff {p : StaticType} (hp : m.params[j]? = some p) :
    m.accepts h bindings m.params.length j (some t) ↔
      h.assignable t.desc (p.substitute bindings).desc ∨
        m.isVarargs ∧ j + 1 = m.params.length ∧
          ∃ e, (p.substitute bindings).desc.element? = some e ∧ h.assignable t.desc e := by
  obtain ⟨hj, -⟩ := List.getElem?_eq_some_iff.mp hp
  by_cases hlast : m.isVarargs ∧ m.params.length - 1 ≤ j
  · have hlen : j + 1 = m.params.length := by omega
    have hgetLast : m.params.getLast? = some p := by
      rw [List.getLast?_eq_getElem?, ← hp, ← hlen]
      rfl
    simp [accepts, hlast, hgetLast, hlen, Hierarchy.fits, StaticType.element?, Option.any_map,
      Option.any_eq_true]
  · have hnot : m.isVarargs → ¬ j + 1 = m.params.length := fun hvar hlen =>
      hlast ⟨hvar, by omega⟩
    have hbranch : (m.isVarargs && m.params.length - 1 ≤ j) = false := by simpa using hlast
    simp only [accepts, hbranch, Bool.false_eq_true, if_false, hp, Option.any_some, Hierarchy.fits]
    exact ⟨.inl, fun hor => hor.resolve_right fun ⟨hvar, hlen, _⟩ => hnot hvar hlen⟩

theorem strictAt_iff {p : StaticType} (ht : args[j]? = some (some t)) (hp : m.params[j]? = some p) :
    m.strictAt h args bindings j ↔ h.strictlyAssignable t.desc (p.substitute bindings).desc := by
  simp [strictAt, ht, hp]

theorem exists_of_strictAt (hstrict : m.strictAt h args bindings j) :
    ∃ t p, args[j]? = some (some t) ∧ m.params[j]? = some p ∧
      h.strictlyAssignable t.desc (p.substitute bindings).desc := by
  simp only [strictAt, Option.any_eq_true] at hstrict
  obtain ⟨arg, harg, t, rfl, p, hp, hstrict⟩ := hstrict
  exact ⟨t, p, harg, hp, hstrict⟩

end Method

namespace Overload

variable {h : Hierarchy} {candidates : List Method} {args : ArgTypes} {view : StaticType}
  {m k : Method} {j : Nat}

def FitsStrictly (h : Hierarchy) (args : ArgTypes) (view : StaticType) (m : Method) : Prop :=
  args.length = m.params.length ∧
    ∀ j < args.length, m.strictAt h args (h.view view m.declaring) j

instance : Decidable (FitsStrictly h args view m) := inferInstanceAs (Decidable (_ ∧ _))

/-- Not all arguments are taken strictly by `k`, and wherever one is not, the types of the
parameters are such that `k` is still as specific as `m`. -/
def Undercuts (h : Hierarchy) (args : ArgTypes) (view : StaticType) (k m : Method) : Prop :=
  ¬ FitsStrictly h args view k ∧
    ∀ j < args.length, ¬ k.strictAt h args (h.view view k.declaring) j → k.undercutsAt h m args j

instance : Decidable (Undercuts h args view k m) := inferInstanceAs (Decidable (_ ∧ _))

theorem FitsStrictly.fits (hsigned : m.signature.params = m.params.map StaticType.desc)
    (hstrict : FitsStrictly h args view m) : Fits h args view m := by
  obtain ⟨hlen, hall⟩ := hstrict
  have harity : m.arity = args.length := by simp [Method.arity, hsigned, hlen]
  refine ⟨by simp [Method.arityMatches, harity], ?_⟩
  simp only [Method.applicable, List.all_eq_true]
  intro ⟨arg, j⟩ hmem
  have harg : args[j]? = some arg := List.mem_zipIdx_iff_getElem?.mp hmem
  obtain ⟨hj, -⟩ := List.getElem?_eq_some_iff.mp harg
  obtain ⟨t, p, ht, hp, hconv⟩ := Method.exists_of_strictAt (hall j hj)
  obtain rfl : arg = some t := Option.some.inj (harg.symm.trans ht)
  rw [hlen, Method.accepts_iff hp]
  exact .inl (Hierarchy.assignable_of_strictlyAssignable hconv)

/-- One argument that `m` takes strictly and `k` does not, where the parameter of `k` converts to
that of `m`. -/
theorem undercutsAt_of_not_strictAt {t p q : StaticType}
    (hlen : args.length = k.params.length) (hk : Fits h args view k)
    (hargs : args[j]? = some (some t)) (ht : h.Known t.desc) (hp : k.params[j]? = some p)
    (hq : m.params[j]? = some q) (hconv : h.assignable p.desc q.desc)
    (hstrict : m.strictAt h args (h.view view m.declaring) j)
    (hloose : ¬ k.strictAt h args (h.view view k.declaring) j) : k.undercutsAt h m args j := by
  rw [Method.strictAt_iff hargs hq] at hstrict
  rw [Method.strictAt_iff hargs hp] at hloose
  simp only [Method.undercutsAt, hargs, hp, hq, Option.any_some]
  by_cases hpk : h.Known p.desc
  · by_cases hqk : h.Known q.desc
    · rw [StaticType.desc_substitute hqk] at hstrict
      rw [StaticType.desc_substitute hpk] at hloose
      have hacc := Method.accepts_of_applicable hk.2 hargs
      rw [hlen, Method.accepts_iff hp, StaticType.desc_substitute hpk] at hacc
      rcases hacc with hacc | ⟨hvar, hlast, e, he, hconv'⟩
      · simp [Hierarchy.undercuts_of_assignable ht hpk hacc hloose hstrict hconv]
      · have harray : p.desc = .array e := Descriptor.eq_array_of_element? he
        have htakes : q.desc.takesArrays :=
          Hierarchy.takesArrays_of_assignable hqk (harray ▸ hconv)
        simp [hvar, hlast, he, hconv', htakes]
    · simp [hqk]
  · simp [hpk]

theorem fitsStrictly_or_undercuts (hargs : ∀ arg ∈ args, arg.any fun t => h.Known t.desc)
    (hmsigned : m.signature.params = m.params.map StaticType.desc)
    (hksigned : k.signature.params = k.params.map StaticType.desc)
    (hstrict : FitsStrictly h args view m) (hk : Fits h args view k)
    (hkm : k.strictlyMoreSpecific h m) :
    FitsStrictly h args view k ∨ Undercuts h args view k m := by
  obtain ⟨-, hmore, -⟩ := Method.strictlyMoreSpecific_iff.mp hkm
  obtain ⟨hlen, hconv⟩ := Method.moreSpecific_iff.mp hmore
  have hklen : args.length = k.params.length := by
    rw [hksigned, hmsigned, List.length_map, List.length_map] at hlen
    exact hstrict.1.trans hlen.symm
  by_cases hkstrict : FitsStrictly h args view k
  · exact .inl hkstrict
  refine .inr ⟨hkstrict, fun j hj hloose => ?_⟩
  obtain ⟨t, q, ht, hq, -⟩ := Method.exists_of_strictAt (hstrict.2 j hj)
  obtain ⟨p, hp⟩ : ∃ p, k.params[j]? = some p := ⟨_, List.getElem?_eq_getElem (hklen ▸ hj)⟩
  have hknown : h.Known t.desc := by simpa using hargs _ (List.mem_of_getElem? ht)
  refine undercutsAt_of_not_strictAt hklen hk ht hknown hp hq ?_ (hstrict.2 j hj) hloose
  exact hconv j p.desc q.desc (by simp [hksigned, hp]) (by simp [hmsigned, hq])

/-- A method that needs no boxing and no variable arguments is only passed over for methods of its
sort or for methods that undercut it. Where none does, it is selected exactly if no method of its
sort is strictly more specific. -/
theorem strict_overload_kept_unless_undercut (hm : m ∈ candidates)
    (hstrict : FitsStrictly h args view m)
    (hargs : ∀ arg ∈ args, arg.any fun t => h.Known t.desc)
    (hsigned : ∀ k ∈ candidates, k.signature.params = k.params.map StaticType.desc) :
    (∀ k ∈ candidates, Fits h args view k → k.strictlyMoreSpecific h m →
      FitsStrictly h args view k ∨ Undercuts h args view k m) ∧
    ((∀ k ∈ candidates, ¬ Undercuts h args view k m) →
      ((∃ r ∈ select h candidates args view, r.method = m) ↔
        ∀ k ∈ candidates, FitsStrictly h args view k → ¬ k.strictlyMoreSpecific h m)) := by
  have hrivals : ∀ k ∈ candidates, Fits h args view k → k.strictlyMoreSpecific h m →
      FitsStrictly h args view k ∨ Undercuts h args view k m := fun k hk hkfits hkm =>
    fitsStrictly_or_undercuts hargs (hsigned m hm) (hsigned k hk) hstrict hkfits hkm
  refine ⟨hrivals, fun hnone => ?_⟩
  rw [exists_mem_select]
  constructor
  · intro hpref k hk hkstrict
    exact hpref.maximal k hk (hkstrict.fits (hsigned k hk))
  · intro hmax
    refine ⟨hm, hstrict.fits (hsigned m hm), fun k hk hkfits hkm => ?_⟩
    rcases hrivals k hk hkfits hkm with hkstrict | hunder
    · exact hmax k hk hkstrict hkm
    · exact hnone k hk hunder

/-! ### Programs with overloads that need boxing -/

def boxes : Library where
  types := .ofList [("java.lang.Object", default), ("java.lang.Integer", default)]

def number : ArgTypes := [some (.ofDescriptor (.primitive .int))]

def wideNumbers : CompilationUnit :=
  .plain [.plain "S" none [overload ["java.lang.Object"], overload ["long"], overload ["double"]]]

theorem strict_overload_kept_unless_undercut_wideNumbers :
    ∃ p, Program.build [wideNumbers] boxes .degrade = .ok p ∧
      ∃ r ∈ select p.hierarchy (p.catalog.methodsNamed "p.S" "f") number (.reference "p.S"),
        r.method.signature.params = [.primitive .long] := by
  obtain ⟨p, hp, h⟩ := exists_ok_of_any (Program.build [wideNumbers] boxes .degrade)
    (fun p => decide (∃ m ∈ p.catalog.methodsNamed "p.S" "f",
      m.signature.params = [.primitive .long] ∧
      FitsStrictly p.hierarchy number (.reference "p.S") m ∧
      ∀ k ∈ p.catalog.methodsNamed "p.S" "f",
        ¬ Undercuts p.hierarchy number (.reference "p.S") k m ∧
        ¬ k.strictlyMoreSpecific p.hierarchy m))
    (by decide +kernel)
  rw [decide_eq_true_eq] at h
  obtain ⟨m, hm, hparams, hstrict, hrivals⟩ := h
  have hknown : ∀ arg ∈ number, arg.any fun t => p.hierarchy.Known t.desc := by
    simp [number, Hierarchy.Known, StaticType.ofDescriptor]
  have hkept := strict_overload_kept_unless_undercut hm hstrict hknown fun k hk =>
    Program.params_of_mem_methods hp (List.mem_filter.mp hk).1
  obtain ⟨r, hr, rfl⟩ := (hkept.2 fun k hk => (hrivals k hk).1).mpr fun k hk _ => (hrivals k hk).2
  exact ⟨p, hp, r, hr, hparams⟩

/-- No method that takes the arguments strictly is passed over for one that does not. -/
def RespectsPhases (h : Hierarchy) (candidates : List Method) (args : ArgTypes)
    (view : StaticType) : Prop :=
  ∀ m ∈ candidates, FitsStrictly h args view m → ∀ k ∈ candidates, Fits h args view k →
    ¬ FitsStrictly h args view k → ¬ k.strictlyMoreSpecific h m

instance : Decidable (RespectsPhases h candidates args view) :=
  inferInstanceAs (Decidable (∀ m ∈ candidates, _ → ∀ k ∈ candidates, _))

def boxedNumber : CompilationUnit :=
  .plain [.plain "S" none [overload ["long"], overload ["java.lang.Integer"]]]

/-- The number widens to `long`, but only the overload that boxes it is selected. -/
theorem not_respectsPhases_boxedNumber :
    ∃ p, Program.build [boxedNumber] boxes .degrade = .ok p ∧
      (∀ m ∈ p.catalog.methodsNamed "p.S" "f", ∀ q ∈ m.params, p.hierarchy.Known q.desc) ∧
      (select p.hierarchy (p.catalog.methodsNamed "p.S" "f") number (.reference "p.S")).map
        (·.method.signature.params) = [[.reference "java.lang.Integer"]] ∧
      ¬ RespectsPhases p.hierarchy (p.catalog.methodsNamed "p.S" "f") number
        (.reference "p.S") := by
  obtain ⟨p, hp, h⟩ := exists_ok_of_any (Program.build [boxedNumber] boxes .degrade)
    (fun p => decide (
      (∀ m ∈ p.catalog.methodsNamed "p.S" "f", ∀ q ∈ m.params, p.hierarchy.Known q.desc) ∧
      (select p.hierarchy (p.catalog.methodsNamed "p.S" "f") number (.reference "p.S")).map
        (·.method.signature.params) = [[.reference "java.lang.Integer"]] ∧
      ¬ RespectsPhases p.hierarchy (p.catalog.methodsNamed "p.S" "f") number (.reference "p.S")))
    (by decide +kernel)
  exact ⟨p, hp, of_decide_eq_true h⟩

end Overload

end JavaCallGraph
