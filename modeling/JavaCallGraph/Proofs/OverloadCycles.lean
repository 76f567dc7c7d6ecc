import JavaCallGraph.Proofs.ConversionOrder
import JavaCallGraph.Proofs.OverloadChoice
import JavaCallGraph.Proofs.PlainClasses
import Mathlib.Data.Set.Finite.List
import Mathlib.Order.WellFounded

/-!
# Overloads that outrank one another

Overload selection leaves out what another fitting method outranks, so it leaves out everything if
the fitting methods outrank one another in a circle. That takes at least three signatures. Where
the types of parameters are known, outranking goes along the order of conversions and no circle
closes: one place of the parameter lists with types that are not known is not enough for one.
-/

namespace JavaCallGraph

namespace Method

variable {h : Hierarchy} {m n k : Method} {i : Nat}

theorem moreSpecific_iff :
    m.moreSpecific h n ↔ m.signature.params.length = n.signature.params.length ∧
      ∀ (j : Nat) (p q : Descriptor), m.signature.params[j]? = some p →
        n.signature.params[j]? = some q → h.assignable p q := by
  simp only [moreSpecific, Bool.and_eq_true, beq_iff_eq, List.all_eq_true, List.mem_iff_getElem?,
    List.getElem?_zip_eq_some]
  constructor
  · rintro ⟨hlen, hall⟩
    exact ⟨hlen, fun j p q hp hq => hall (p, q) ⟨j, hp, hq⟩⟩
  · rintro ⟨hlen, hall⟩
    refine ⟨hlen, ?_⟩
    rintro ⟨p, q⟩ ⟨j, hp, hq⟩
    exact hall j p q hp hq

theorem strictlyMoreSpecific_iff :
    m.strictlyMoreSpecific h n ↔
      m.signature ≠ n.signature ∧ m.moreSpecific h n ∧ ¬ n.moreSpecific h m := by
  simp [strictlyMoreSpecific, and_assoc]

/-! ### Specificity along the order of conversions -/

def BelowAt (h : Hierarchy) (i : Nat) (m n : Method) : Prop :=
  ∀ p q, m.signature.params[i]? = some p → n.signature.params[i]? = some q →
    h.Below p.unboxed q.unboxed

theorem BelowAt.trans (hreg : h.Regular)
    (hlen : m.signature.params.length = n.signature.params.length) (hmn : BelowAt h i m n)
    (hnk : BelowAt h i n k) : BelowAt h i m k := by
  intro p r hp hr
  obtain ⟨q, hq⟩ : ∃ q, n.signature.params[i]? = some q := by
    obtain ⟨hi, -⟩ := List.getElem?_eq_some_iff.mp hp
    exact ⟨_, List.getElem?_eq_getElem (hlen ▸ hi)⟩
  exact (hmn p q hp hq).trans hreg (hnk q r hq hr)

structure BelowElsewhere (h : Hierarchy) (i : Nat) (m n : Method) : Prop where
  length : m.signature.params.length = n.signature.params.length
  below : ∀ j, j ≠ i → BelowAt h j m n

theorem BelowElsewhere.trans (hreg : h.Regular) (hmn : BelowElsewhere h i m n)
    (hnk : BelowElsewhere h i n k) : BelowElsewhere h i m k where
  length := hmn.length.trans hnk.length
  below j hj := (hmn.below j hj).trans hreg hmn.length (hnk.below j hj)

/-- The order of parameter lists in which place `i` counts last. -/
structure Precedes (h : Hierarchy) (i : Nat) (m n : Method) : Prop where
  elsewhere : BelowElsewhere h i m n
  here : BelowElsewhere h i n m → BelowAt h i m n ∧ ¬ BelowAt h i n m

theorem Precedes.irrefl : ¬ Precedes h i m m := fun hm =>
  have ⟨hbelow, hnot⟩ := hm.here hm.elsewhere
  hnot hbelow

theorem Precedes.trans (hreg : h.Regular) (hmn : Precedes h i m n) (hnk : Precedes h i n k) :
    Precedes h i m k where
  elsewhere := hmn.elsewhere.trans hreg hnk.elsewhere
  here hkm := by
    -- The three are equal at every other place, so place `i` decides both steps.
    obtain ⟨hmn', -⟩ := hmn.here (hnk.elsewhere.trans hreg hkm)
    obtain ⟨hnk', hkn⟩ := hnk.here (hkm.trans hreg hmn.elsewhere)
    exact ⟨hmn'.trans hreg hmn.elsewhere.length hnk',
      fun hkm' => hkn (hkm'.trans hreg hkm.length hmn')⟩

def KnownElsewhere (h : Hierarchy) (i : Nat) (m : Method) : Prop :=
  ∀ j, j ≠ i → ∀ d ∈ m.signature.params[j]?, h.Known d

theorem precedes_of_strictlyMoreSpecific (hreg : h.Regular) (hm : m.KnownElsewhere h i)
    (hn : n.KnownElsewhere h i) (hmn : m.strictlyMoreSpecific h n) : Precedes h i m n := by
  obtain ⟨-, hmore, hless⟩ := strictlyMoreSpecific_iff.mp hmn
  obtain ⟨hlen, hconv⟩ := moreSpecific_iff.mp hmore
  have hbelow : ∀ (j : Nat) (p q : Descriptor), m.signature.params[j]? = some p →
      n.signature.params[j]? = some q → (h.assignable q p → j ≠ i) →
      h.Below p.unboxed q.unboxed := fun j p q hp hq hdecided =>
    Hierarchy.Decided.below_unboxed hreg ⟨hconv j p q hp hq, fun hback =>
      ⟨hm j (hdecided hback) p hp, hn j (hdecided hback) q hq⟩⟩
  have helse : ∀ j, j ≠ i → BelowAt h j m n := fun j hj p q hp hq =>
    hbelow j p q hp hq fun _ => hj
  refine ⟨⟨hlen, helse⟩, fun hback => ?_⟩
  -- What is equal at the other places converts back there, so place `i` is where it does not.
  obtain ⟨j, q, p, hq, hp, hnot⟩ : ∃ (j : Nat) (q p : Descriptor),
      n.signature.params[j]? = some q ∧ m.signature.params[j]? = some p ∧
        ¬ h.assignable q p := by
    by_contra hall
    refine hless (moreSpecific_iff.mpr ⟨hlen.symm, fun j q p hq hp => ?_⟩)
    by_contra hnot
    exact hall ⟨j, q, p, hq, hp, hnot⟩
  have hpq := hbelow j p q hp hq fun hconv => absurd hconv hnot
  have hqp : ¬ h.Below q.unboxed p.unboxed := fun hqp =>
    hnot (Hierarchy.assignable_of_below_unboxed hpq hqp)
  obtain rfl : j = i := by
    by_contra hj
    exact hqp (hback.below j hj q p hq hp)
  refine ⟨fun p' q' hp' hq' => ?_, fun hbelow' => hqp (hbelow' q p hq hp)⟩
  rw [hp] at hp'
  rw [hq] at hq'
  cases hp'
  cases hq'
  exact hpq

end Method

namespace Overload

variable {h : Hierarchy} {candidates methods : List Method} {args : ArgTypes} {view : StaticType}
  {m : Method}

def fitting (h : Hierarchy) (candidates : List Method) (args : ArgTypes) (view : StaticType) :
    List Method :=
  candidates.filter fun m => Fits h args view m

theorem mem_fitting :
    m ∈ fitting h candidates args view ↔ m ∈ candidates ∧ Fits h args view m := by
  simp [fitting]

structure Outranks (h : Hierarchy) (methods : List Method) (k m : Method) : Prop where
  mem_left : k ∈ methods
  mem_right : m ∈ methods
  strict : k.strictlyMoreSpecific h m

theorem select_eq_nil_iff :
    select h candidates args view = [] ↔ ∀ m ∈ fitting h candidates args view,
      ∃ k, Outranks h (fitting h candidates args view) k m := by
  constructor
  · intro hnil m hm
    by_contra hnone
    obtain ⟨hmem, hfits⟩ := mem_fitting.mp hm
    have hpref : Preferred h candidates args view m := ⟨hmem, hfits, fun k hk hkfits hstrict =>
      hnone ⟨k, mem_fitting.mpr ⟨hk, hkfits⟩, hm, hstrict⟩⟩
    obtain ⟨r, hr, -⟩ := exists_mem_select.mpr hpref
    rw [hnil] at hr
    cases hr
  · intro hall
    rw [List.eq_nil_iff_forall_not_mem]
    intro r hr
    have hpref := exists_mem_select.mp ⟨r, hr, rfl⟩
    obtain ⟨k, hk, -, hstrict⟩ := hall r.method (mem_fitting.mpr ⟨hpref.mem, hpref.fits⟩)
    obtain ⟨hkmem, hkfits⟩ := mem_fitting.mp hk
    exact hpref.maximal k hkmem hkfits hstrict

/-- Finitely many methods that are all outranked outrank one another in a circle. -/
theorem exists_cycle (hm : m ∈ methods) (hall : ∀ m ∈ methods, ∃ k, Outranks h methods k m) :
    ∃ k, Relation.TransGen (Outranks h methods) k k := by
  by_contra hnone
  have : Finite {k // k ∈ methods} := methods.finite_toSet.to_subtype
  let above (a b : {k // k ∈ methods}) : Prop := Relation.TransGen (Outranks h methods) a b
  have : IsTrans _ above := ⟨fun _ _ _ hab hbc => hab.trans hbc⟩
  have : Std.Irrefl above := ⟨fun a ha => hnone ⟨a, ha⟩⟩
  have hwf : WellFounded above := Finite.wellFounded_of_trans_of_irrefl above
  obtain ⟨top, -, htop⟩ := hwf.has_min Set.univ ⟨⟨m, hm⟩, trivial⟩
  obtain ⟨k, hk⟩ := hall top top.2
  exact htop ⟨k, hk.mem_left⟩ trivial (.single hk)

/-- Two signatures do not make a circle. -/
theorem exists_three_signatures (hm : m ∈ methods)
    (hall : ∀ m ∈ methods, ∃ k, Outranks h methods k m) :
    ∃ a ∈ methods, ∃ b ∈ methods, ∃ c ∈ methods,
      a.signature ≠ b.signature ∧ b.signature ≠ c.signature ∧ c.signature ≠ a.signature := by
  obtain ⟨k, hk⟩ := hall m hm
  obtain ⟨l, hl⟩ := hall k hk.mem_left
  obtain ⟨hkm, -, hnot⟩ := Method.strictlyMoreSpecific_iff.mp hk.strict
  obtain ⟨hlk, hmore, -⟩ := Method.strictlyMoreSpecific_iff.mp hl.strict
  refine ⟨m, hm, l, hl.mem_left, k, hk.mem_left, fun hml => hnot ?_, hlk, hkm⟩
  simpa only [Method.moreSpecific, hml] using hmore

theorem select_ne_nil_of_knownElsewhere (hreg : h.Regular) {i : Nat}
    (hm : m ∈ fitting h candidates args view)
    (hknown : ∀ n ∈ fitting h candidates args view, n.KnownElsewhere h i) :
    select h candidates args view ≠ [] := by
  intro hnil
  obtain ⟨k, hcycle⟩ := exists_cycle hm (select_eq_nil_iff.mp hnil)
  have hstep : ∀ {a b}, Outranks h (fitting h candidates args view) a b →
      Method.Precedes h i a b := fun hout =>
    Method.precedes_of_strictlyMoreSpecific hreg (hknown _ hout.mem_left)
      (hknown _ hout.mem_right) hout.strict
  have hpath : ∀ {a b}, Relation.TransGen (Outranks h (fitting h candidates args view)) a b →
      Method.Precedes h i a b := by
    intro a b hab
    induction hab with
    | single hout => exact hstep hout
    | tail _ hout ih => exact ih.trans hreg (hstep hout)
  exact (hpath hcycle).irrefl

/-- Where some candidate fits, one is selected, unless the fitting ones outrank one another in a
circle. A circle takes three signatures, and two places with parameter types that are not known. -/
theorem select_empty_only_by_cycle (hm : m ∈ candidates) (hfits : Fits h args view m) :
    (select h candidates args view = [] ↔ ∀ n ∈ fitting h candidates args view,
      ∃ k, Outranks h (fitting h candidates args view) k n) ∧
    (select h candidates args view = [] →
      (∃ k, Relation.TransGen (Outranks h (fitting h candidates args view)) k k) ∧
      ∃ a ∈ fitting h candidates args view, ∃ b ∈ fitting h candidates args view,
        ∃ c ∈ fitting h candidates args view,
          a.signature ≠ b.signature ∧ b.signature ≠ c.signature ∧ c.signature ≠ a.signature) ∧
    (h.Regular → ∀ i, (∀ n ∈ fitting h candidates args view, n.KnownElsewhere h i) →
      select h candidates args view ≠ []) := by
  have hmem : m ∈ fitting h candidates args view := mem_fitting.mpr ⟨hm, hfits⟩
  refine ⟨select_eq_nil_iff, fun hnil => ?_, fun hreg i hknown =>
    select_ne_nil_of_knownElsewhere hreg hmem hknown⟩
  have hall := select_eq_nil_iff.mp hnil
  exact ⟨exists_cycle hmem hall, exists_three_signatures hmem hall⟩

/-! ### Programs with overloads over a type without a declaration -/

def overload (params : List String) : MethodDecl :=
  .plain "f" (params.map fun type => (type, "x")) "void" []

def unknownPlace : CompilationUnit :=
  .plain [.plain "B" none [], .plain "A" (some "B") [],
    .plain "S" none [overload ["A", "U"], overload ["B", "A"], overload ["B", "B"]]]

theorem select_empty_only_by_cycle_unknownPlace :
    ∃ p, Program.build [unknownPlace] {} .degrade = .ok p ∧
      select p.hierarchy (p.catalog.methodsNamed "p.S" "f")
        [some (.reference "p.A"), some (.reference "p.A")] (.reference "p.S") ≠ [] := by
  obtain ⟨p, hp, h⟩ := exists_ok_of_any (Program.build [unknownPlace] {} .degrade)
    (fun p => decide (p.hierarchy.nodes.supertypes Descriptor.objectName = [] ∧
      (∀ entry ∈ p.hierarchy.nodes.toList, ∀ sup ∈ entry.2.supertypes,
        Primitive.ofWrapper? sup = none) ∧
      (∃ m ∈ p.catalog.methodsNamed "p.S" "f", Fits p.hierarchy
        [some (.reference "p.A"), some (.reference "p.A")] (.reference "p.S") m) ∧
      ∀ n ∈ p.catalog.methodsNamed "p.S" "f", n.signature.params.length = 2 ∧
        ∀ d ∈ n.signature.params.head?, p.hierarchy.Known d))
    (by decide +kernel)
  rw [decide_eq_true_eq] at h
  obtain ⟨hroot, hfinal, ⟨m, hm, hfits⟩, hknown⟩ := h
  obtain ⟨nodes, hb, -⟩ := Program.build_hierarchy_of_build hp
  refine ⟨p, hp, (select_empty_only_by_cycle hm hfits).2.2
    (Hierarchy.regular_of_build hb hroot hfinal) 1 fun n hn j hj d hd => ?_⟩
  obtain ⟨hlen, hfirst⟩ := hknown n (mem_fitting.mp hn).1
  obtain ⟨hlt, -⟩ := List.getElem?_eq_some_iff.mp hd
  obtain rfl : j = 0 := by omega
  exact hfirst d (by rwa [List.head?_eq_getElem?])

/-- Three overloads, each of which the next outranks at the places where none of them names the
undeclared type `U`. -/
def circular : CompilationUnit :=
  .plain [.plain "B" none [], .plain "A" (some "B") [],
    .plain "S" none [overload ["A", "U", "B"], overload ["B", "A", "U"], overload ["U", "B", "A"]]]

/-- All three can be called, and none is selected. -/
theorem select_eq_nil_circular : ∃ p, Program.build [circular] {} .degrade = .ok p ∧
    ∃ args, (fitting p.hierarchy (p.catalog.methodsNamed "p.S" "f") args
        (.reference "p.S")).length = 3 ∧
      select p.hierarchy (p.catalog.methodsNamed "p.S" "f") args (.reference "p.S") = [] := by
  obtain ⟨p, hp, h⟩ := exists_ok_of_any (Program.build [circular] {} .degrade)
    (fun p => decide ((fitting p.hierarchy (p.catalog.methodsNamed "p.S" "f")
        (List.replicate 3 (some (.reference "p.A"))) (.reference "p.S")).length = 3 ∧
      select p.hierarchy (p.catalog.methodsNamed "p.S" "f")
        (List.replicate 3 (some (.reference "p.A"))) (.reference "p.S") = []))
    (by decide +kernel)
  exact ⟨p, hp, _, of_decide_eq_true h⟩

end Overload

end JavaCallGraph
