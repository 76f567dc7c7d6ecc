import JavaCallGraph.Overload
import JavaCallGraph.Proofs.ConversionOrder
import JavaCallGraph.Proofs.TypeSubstitution

/-!
# Renaming type variables

The names of type variables can be changed in a type and in the bindings alike: substitution and the
binding of variables by arguments then give the same up to the names. Whether an argument can be
passed to a parameter does not depend on the names at all.
-/

namespace JavaCallGraph

namespace Descriptor

def rename (f : String → String) : Descriptor → Descriptor
  | .typeVar name => .typeVar (f name)
  | .array element => .array (element.rename f)
  | .primitive p => .primitive p
  | .reference name => .reference name

variable (f g : String → String)

@[simp]
theorem isPrimitive_rename (d : Descriptor) : (d.rename f).isPrimitive = d.isPrimitive := by
  cases d <;> rfl

theorem element?_rename (d : Descriptor) : (d.rename f).element? = d.element?.map (rename f) := by
  cases d <;> rfl

theorem rename_rename (d : Descriptor) : (d.rename f).rename g = d.rename (g ∘ f) := by
  induction d with
  | array e ih => exact congrArg array ih
  | _ => rfl

theorem rename_of_vars_eq_nil {d : Descriptor} (h : d.vars = []) : d.rename f = d := by
  induction d with
  | array e ih => exact congrArg array (ih h)
  | typeVar v => cases h
  | _ => rfl

end Descriptor

namespace Hierarchy

variable (h : Hierarchy) (f : String → String)

/-- The name of a type variable does not matter to what it is given. -/
theorem assignable_rename (d e : Descriptor) : h.assignable d (e.rename f) = h.assignable d e := by
  induction e generalizing d with
  | array e ih =>
    cases d with
    | array d =>
      rw [Bool.eq_iff_iff, Descriptor.rename, assignable_array_iff, assignable_array_iff, ih,
        Descriptor.isPrimitive_rename]
      refine or_congr_left (exists_congr fun p => and_congr_right fun _ => ?_)
      cases e <;> simp [Descriptor.rename]
    | _ => rfl
  | typeVar name => cases d <;> rfl
  | _ => rfl

theorem fits_rename (arg : Option StaticType) (d : Descriptor) :
    h.fits arg (d.rename f) = h.fits arg d := by
  cases arg with
  | none => rfl
  | some t => exact h.assignable_rename f t.desc d

end Hierarchy

namespace StaticType

mutual

def rename (f : String → String) : StaticType → StaticType
  | ⟨desc, args⟩ => ⟨desc.rename f, renameList f args⟩

def renameList (f : String → String) : List StaticType → List StaticType
  | [] => []
  | t :: ts => rename f t :: renameList f ts

end

variable {f g : String → String}

theorem renameList_eq_map (f : String → String) (ts : List StaticType) :
    renameList f ts = ts.map (rename f) := by
  induction ts with
  | nil => rfl
  | cons t ts ih => simp [renameList, ih]

@[simp]
theorem rename_mk (f : String → String) (desc : Descriptor) (args : List StaticType) :
    rename f ⟨desc, args⟩ = ⟨desc.rename f, args.map (rename f)⟩ := by
  rw [rename, renameList_eq_map]

@[simp]
theorem desc_rename (f : String → String) (t : StaticType) :
    (t.rename f).desc = t.desc.rename f := by
  cases t
  rw [rename_mk]

theorem rename_arrayOf (f : String → String) (t : StaticType) :
    t.arrayOf.rename f = (t.rename f).arrayOf := by
  cases t
  simp [arrayOf, Descriptor.rename]

theorem rename_arrayOfRank (f : String → String) (t : StaticType) (n : Nat) :
    (t.arrayOfRank n).rename f = (t.rename f).arrayOfRank n := by
  induction n with
  | zero => rfl
  | succ n ih => rw [arrayOfRank, arrayOfRank, rename_arrayOf, ih]

theorem rename_rename (f g : String → String) (t : StaticType) :
    (t.rename f).rename g = t.rename (g ∘ f) := by
  induction t using induction_args with
  | step desc args ih => simpa [Descriptor.rename_rename] using ih

/-! ### Substitution -/

section Substitution

variable {b b' : Bindings}

/-- Where the renamed variables are bound alike, the results of substitution differ by the renaming
at most. -/
theorem rename_substitute_rename {t : StaticType} (hidem : f ∘ f = f)
    (hb : ∀ v ∈ t.vars, b'[f v]? = b[v]?) :
    ((t.rename f).substitute b').rename f = (t.substitute b).rename f := by
  induction t using induction_head with
  | var v args n =>
    have hv : b'[f v]? = b[v]? := hb v (mem_vars_arrayOfRank_typeVar v args n)
    simp only [rename_arrayOfRank, substitute_arrayOfRank]
    apply congrArg (arrayOfRank · n)
    rw [rename_mk, Descriptor.rename, substitute_typeVar, substitute_typeVar, hv]
    cases b[v]? with
    | some u => rfl
    | none =>
      -- An open variable keeps its arguments unsubstituted, so it is renamed twice on one side.
      have hname : f (f v) = f v := congrFun hidem v
      simp [Descriptor.rename, hname, rename_rename, hidem]
  | named desc args hdesc ih =>
    have hargs : ∀ a ∈ args, ((a.rename f).substitute b').rename f = (a.substitute b).rename f :=
      fun a ha => ih a ha fun v hv => hb v (mem_vars_mk.mpr (.inr ⟨a, ha, hv⟩))
    rw [rename_mk, Descriptor.rename_of_vars_eq_nil f hdesc, substitute_of_named b' hdesc,
      substitute_of_named b hdesc, rename_mk, rename_mk, List.map_map, List.map_map, List.map_map]
    exact congrArg _ (List.map_congr_left hargs)

/-- Where all variables are bound, nothing is left of their names. -/
theorem substitute_rename_of_bound {t : StaticType}
    (hb : ∀ v ∈ t.vars, b'[f v]? = b[v]? ∧ v ∈ b) :
    (t.rename f).substitute b' = t.substitute b := by
  induction t using induction_head with
  | var v args n =>
    obtain ⟨heq, hmem⟩ := hb v (mem_vars_arrayOfRank_typeVar v args n)
    rw [rename_arrayOfRank, substitute_arrayOfRank, substitute_arrayOfRank, rename_mk,
      Descriptor.rename, substitute_typeVar, substitute_typeVar, heq,
      Std.ExtTreeMap.getElem?_eq_some_getElem hmem]
    rfl
  | named desc args hdesc ih =>
    have hargs : ∀ a ∈ args, (a.rename f).substitute b' = a.substitute b :=
      fun a ha => ih a ha fun v hv => hb v (mem_vars_mk.mpr (.inr ⟨a, ha, hv⟩))
    rw [rename_mk, Descriptor.rename_of_vars_eq_nil f hdesc, substitute_of_named b' hdesc,
      substitute_of_named b hdesc, List.map_map]
    exact congrArg _ (List.map_congr_left hargs)

end Substitution

/-! ### Binding variables by arguments -/

theorem peel_rename (f : String → String) (p a : Descriptor) :
    peel (p.rename f) a = (peel p a).map fun found => (found.1.rename f, found.2) := by
  induction p generalizing a with
  | array p ih =>
    cases a with
    | array a => exact ih a
    | _ => rfl
  | _ => rfl

theorem vars_of_peel {p a q c : Descriptor} (hpeel : peel p a = some (q, c)) : q.vars = p.vars := by
  induction p generalizing a with
  | array p ih =>
    cases a with
    | array a => exact ih hpeel
    | _ => simp [peel] at hpeel
  | _ => cases hpeel; rfl

def Apart (f : String → String) (V : List String) : Prop :=
  ∀ v ∈ V, ∀ w ∈ V, f v = f w → v = w

def BoundAlike (f : String → String) (V : List String) (b b' : Bindings) : Prop :=
  ∀ v ∈ V, b'[f v]? = b[v]?

variable {V own : List String} {b b' : Bindings}

theorem contains_map_of_apart (hf : Apart f V) (hown : ∀ v ∈ own, v ∈ V) {v : String}
    (hv : v ∈ V) : (own.map f).contains (f v) = own.contains v := by
  rw [Bool.eq_iff_iff, List.contains_iff_mem, List.contains_iff_mem, List.mem_map]
  constructor
  · rintro ⟨w, hw, heq⟩
    rwa [← hf w (hown w hw) v hv heq]
  · intro hmem
    exact ⟨v, hmem, rfl⟩

theorem BoundAlike.insertIfNew (hf : Apart f V) (hb : BoundAlike f V b b') {v : String}
    (hv : v ∈ V) (t : StaticType) :
    BoundAlike f V (b.insertIfNew v t) (b'.insertIfNew (f v) t) := by
  intro w hw
  have hnames : f v = f w ↔ v = w := ⟨hf v hv w hw, congrArg f⟩
  have hmem : f v ∈ b' ↔ v ∈ b := by
    rw [Std.ExtTreeMap.mem_iff_isSome_getElem?, Std.ExtTreeMap.mem_iff_isSome_getElem?, hb v hv]
  simp only [Std.ExtTreeMap.getElem?_insertIfNew, Std.LawfulEqCmp.compare_eq_iff_eq, hnames, hmem,
    hb w hw]

theorem BoundAlike.unifyAll {ps as : List StaticType}
    (hunify : ∀ p ∈ ps, ∀ (a : StaticType) (b b' : Bindings), BoundAlike f V b b' →
      BoundAlike f V (p.unify own b a) ((p.rename f).unify (own.map f) b' a))
    (hb : BoundAlike f V b b') :
    BoundAlike f V (StaticType.unifyAll own b ps as)
      (StaticType.unifyAll (own.map f) b' (ps.map (rename f)) as) := by
  induction ps generalizing as b b' with
  | nil => simpa [StaticType.unifyAll] using hb
  | cons p ps ih =>
    cases as with
    | nil => simpa [StaticType.unifyAll] using hb
    | cons a as =>
      rw [List.map_cons, StaticType.unifyAll, StaticType.unifyAll]
      exact ih (fun q hq => hunify q (by simp [hq])) (hunify p (by simp) a b b' hb)

/-- Variables are bound to the same types, whatever they are called. -/
theorem BoundAlike.unify (hf : Apart f V) (hown : ∀ v ∈ own, v ∈ V) {t actual : StaticType}
    (ht : ∀ v ∈ t.vars, v ∈ V) (hb : BoundAlike f V b b') :
    BoundAlike f V (t.unify own b actual) ((t.rename f).unify (own.map f) b' actual) := by
  induction t using induction_args generalizing actual b b' with
  | step desc args ih =>
    have hargs : BoundAlike f V (StaticType.unifyAll own b args actual.args)
        (StaticType.unifyAll (own.map f) b' (args.map (rename f)) actual.args) :=
      BoundAlike.unifyAll (fun p hp a c c' hc =>
        ih p hp (fun v hv => ht v (mem_vars_mk.mpr (.inr ⟨p, hp, hv⟩))) hc) hb
    rw [rename_mk, StaticType.unify, StaticType.unify, peel_rename, List.length_map]
    cases hpeel : peel desc actual.desc with
    | none => exact hb
    | some found =>
      obtain ⟨q, c⟩ := found
      cases q with
      | typeVar v =>
        have hv : v ∈ V := ht v (mem_vars_mk.mpr (.inl (by
          rw [← vars_of_peel hpeel]
          simp [Descriptor.vars])))
        simp only [Option.map_some, Descriptor.rename, contains_map_of_apart hf hown hv]
        split
        · cases boxed? ⟨c, actual.args⟩ with
          | none => exact hb
          | some bound => exact hb.insertIfNew hf hv bound
        · split
          · exact hargs
          · exact hb
      | _ =>
        simp only [Option.map_some, Descriptor.rename]
        split
        · exact hargs
        · exact hb

end StaticType

end JavaCallGraph
