import JavaCallGraph.Overload
import JavaCallGraph.Proofs.SubtypeOrder

/-!
# The order that conversions follow

Conversion of arguments is not transitive: an `Integer` converts to `long` and `long` to `Long`.
But where types are known it runs along an order, in which a wrapper class stands in the place of
its primitive type and every other class comes after the primitive types. Two types that are equal
in this order convert to one another. So a cycle of conversions between known types can be gone
through both ways.
-/

namespace JavaCallGraph

namespace Primitive

theorem widensTo_refl (p : Primitive) : p.widensTo p := by cases p <;> rfl

theorem widensTo_trans {p q r : Primitive} (hpq : p.widensTo q) (hqr : q.widensTo r) :
    p.widensTo r := by
  cases p <;> cases q <;> cases r <;> simp_all [widensTo]

theorem eq_of_widensTo {p q : Primitive} (hpq : p.widensTo q) (hqp : q.widensTo p) : p = q := by
  cases p <;> cases q <;> simp_all [widensTo]

theorem ofWrapper?_eq_some_iff {name : String} {p : Primitive} :
    ofWrapper? name = some p ↔ p.wrapper? = some name := by
  constructor
  · intro h
    simpa using List.find?_some h
  · intro h
    cases p <;> cases h <;> decide

end Primitive

namespace Hierarchy

variable {h : Hierarchy}

/-! ### Subtyping of a built hierarchy -/

structure Regular (h : Hierarchy) : Prop where
  trans : ∀ {a b c : String}, h.isSubtype a b → h.isSubtype b c → h.isSubtype a c
  final : ∀ {p : Primitive} {wrapper name : String}, p.wrapper? = some wrapper →
    h.isSubtype name wrapper → name = wrapper

theorem exists_extends_of_chain {table : TypeTable} {sub sup : String}
    (hchain : table.Chain sub sup) : ∃ last, table.Extends last sup := by
  induction hchain with
  | edge hext => exact ⟨_, hext⟩
  | step _ _ _ ih => exact ih

theorem regular_of_build {nodes : List TypeNode} {policy : CyclePolicy}
    (hb : build nodes policy = .ok h) (hroot : h.nodes.supertypes Descriptor.objectName = [])
    (hfinal : ∀ entry ∈ h.nodes.toList, ∀ sup ∈ entry.2.supertypes,
      Primitive.ofWrapper? sup = none) : h.Regular where
  trans := isSubtype_trans hb hroot
  final {p wrapper name} hwrapper hsub := by
    rcases (isSubtype_iff_of_build hb).mp hsub with heq | rfl | hchain
    · exact heq
    · cases p <;> simp [Primitive.wrapper?, Descriptor.objectName] at hwrapper
    · obtain ⟨last, hext⟩ := exists_extends_of_chain hchain
      obtain ⟨node, hnode, hsup⟩ := TypeTable.extends_iff.mp hext
      have hnone := hfinal (last, node)
        (Std.ExtTreeMap.mem_toList_iff_getElem?_eq_some.mpr hnode) wrapper hsup
      rw [Primitive.ofWrapper?_eq_some_iff.mpr hwrapper] at hnone
      cases hnone

end Hierarchy

/-! ### The order -/

theorem Descriptor.isPrimitive_iff {d : Descriptor} : d.isPrimitive ↔ ∃ p, d = .primitive p := by
  cases d <;> simp [isPrimitive]

def Descriptor.unboxed : Descriptor → Descriptor
  | .reference name => ((Primitive.ofWrapper? name).map Descriptor.primitive).getD (.reference name)
  | .array element => .array element.unboxed
  | .primitive p => .primitive p
  | .typeVar name => .typeVar name

namespace Hierarchy

variable {h : Hierarchy}

/-- Primitive types are ordered by widening and come before all classes, as arrays do. -/
def Below (h : Hierarchy) : Descriptor → Descriptor → Prop
  | .primitive p, .primitive q => p.widensTo q
  | .primitive _, .reference _ => True
  | .reference a, .reference b => h.isSubtype a b
  | .array _, .reference _ => True
  | .array x, .array y => Below h x y
  | _, _ => False

theorem Below.trans (hreg : h.Regular) {x y z : Descriptor} (hxy : h.Below x y)
    (hyz : h.Below y z) : h.Below x z := by
  induction x generalizing y z with
  | primitive p =>
    cases y <;> cases z <;> simp_all only [Below]
    exact Primitive.widensTo_trans hxy hyz
  | reference a =>
    cases y <;> cases z <;> simp_all only [Below]
    exact hreg.trans hxy hyz
  | array x ih =>
    cases y <;> cases z <;> simp_all only [Below]
    exact ih hxy hyz
  | typeVar name => cases y <;> simp only [Below] at hxy

/-- Between arrays of primitive types there is no conversion but identity. -/
theorem assignable_array_iff {x y : Descriptor} :
    h.assignable (.array x) (.array y) ↔
      (∃ p, x = .primitive p ∧ y = .primitive p) ∨
        ¬ (x.isPrimitive ∧ y.isPrimitive) ∧ h.assignable x y := by
  cases x <;> cases y <;> simp [assignable, Descriptor.isPrimitive]
  exact eq_comm

/-- Of types that are equal in the order, each converts to the other. -/
theorem assignable_of_below_unboxed {x y : Descriptor} (hxy : h.Below x.unboxed y.unboxed)
    (hyx : h.Below y.unboxed x.unboxed) : h.assignable y x := by
  induction x generalizing y with
  | primitive p =>
    cases y with
    | primitive q => exact hyx
    | reference s =>
      cases hs : Primitive.ofWrapper? s with
      | none => simp [Descriptor.unboxed, hs, Below] at hyx
      | some q => simpa [Descriptor.unboxed, hs, Below, assignable] using hyx
    | array y => simp [Descriptor.unboxed, Below] at hyx
    | typeVar name => rfl
  | reference r =>
    cases hr : Primitive.ofWrapper? r with
    | none =>
      cases y with
      | primitive q => simp [Descriptor.unboxed, hr, Below] at hxy
      | reference s =>
        cases hs : Primitive.ofWrapper? s with
        | none => simp_all [Descriptor.unboxed, Below, assignable]
        | some q => simp [Descriptor.unboxed, hr, hs, Below] at hxy
      | array y => simp [Descriptor.unboxed, hr, Below] at hxy
      | typeVar name => rfl
    | some p =>
      have hwrapper := Primitive.ofWrapper?_eq_some_iff.mp hr
      cases y with
      | primitive q =>
        simp only [Descriptor.unboxed, hr, Option.map_some, Option.getD_some, Below] at hxy hyx
        obtain rfl := Primitive.eq_of_widensTo hxy hyx
        simp [assignable, hwrapper, isSubtype_refl]
      | reference s =>
        cases hs : Primitive.ofWrapper? s with
        | none => simp [Descriptor.unboxed, hr, hs, Below] at hyx
        | some q =>
          simp only [Descriptor.unboxed, hr, hs, Option.map_some, Option.getD_some, Below]
            at hxy hyx
          obtain rfl := Primitive.eq_of_widensTo hxy hyx
          have hsame := Primitive.ofWrapper?_eq_some_iff.mp hs
          obtain rfl : s = r := Option.some.inj (hsame.symm.trans hwrapper)
          simp [assignable, isSubtype_refl]
      | array y => simp [Descriptor.unboxed, hr, Below] at hxy
      | typeVar name => rfl
  | array x ih =>
    cases y with
    | array y =>
      rw [assignable_array_iff]
      by_cases hprim : y.isPrimitive ∧ x.isPrimitive
      · obtain ⟨⟨q, rfl⟩, p, rfl⟩ := hprim.imp Descriptor.isPrimitive_iff.mp
          Descriptor.isPrimitive_iff.mp
        obtain rfl := Primitive.eq_of_widensTo hxy hyx
        exact .inl ⟨p, rfl, rfl⟩
      · exact .inr ⟨hprim, ih hxy hyx⟩
    | typeVar name => rfl
    | primitive q => simp [Descriptor.unboxed, Below] at hxy
    | reference s =>
      cases hs : Primitive.ofWrapper? s <;> simp [Descriptor.unboxed, hs, Below] at hxy hyx
  | typeVar name => cases y <;> simp [Descriptor.unboxed, Below] at hxy

/-- The type is declared, down to the elements of an array. -/
def Known (h : Hierarchy) : Descriptor → Bool
  | .primitive _ => true
  | .reference name => !h.isUndeclared name
  | .array element => h.Known element
  | .typeVar _ => false

/-- A conversion that is more than a want of knowledge: it does not go both ways, or both of its
types are known. -/
def Decided (h : Hierarchy) (x y : Descriptor) : Prop :=
  h.assignable x y ∧ (h.assignable y x → h.Known x ∧ h.Known y)

theorem Decided.of_array {x y : Descriptor} (hdec : h.Decided (.array x) (.array y)) :
    (∃ p, x = .primitive p ∧ y = .primitive p) ∨ h.Decided x y := by
  obtain ⟨hxy, hyx⟩ := hdec
  rcases assignable_array_iff.mp hxy with heq | ⟨hprim, hxy⟩
  · exact .inl heq
  · exact .inr ⟨hxy, fun hback =>
      hyx (assignable_array_iff.mpr (.inr ⟨fun hboth => hprim hboth.symm, hback⟩))⟩

theorem Decided.isSubtype {a b : String} (hdec : h.Decided (.reference a) (.reference b)) :
    h.isSubtype a b := by
  obtain ⟨hab, hba⟩ := hdec
  simp only [assignable, Known, Bool.or_eq_true, Bool.not_eq_true'] at hab hba
  grind

theorem Decided.not_typeVar {x y : Descriptor} (hdec : h.Decided x y) :
    x.isTypeVar = false ∧ y.isTypeVar = false := by
  obtain ⟨-, hyx⟩ := hdec
  cases x <;> cases y <;> simp_all [assignable, Known, Descriptor.isTypeVar]

theorem ofWrapper?_of_mem_arraySupertypes :
    ∀ name ∈ arraySupertypes, Primitive.ofWrapper? name = none := by
  decide

/-- Where types are known, conversion follows the order. -/
theorem Decided.below_unboxed (hreg : h.Regular) {x y : Descriptor} (hdec : h.Decided x y) :
    h.Below x.unboxed y.unboxed := by
  induction x generalizing y with
  | primitive p =>
    cases y with
    | primitive q => exact hdec.1
    | reference s =>
      cases hs : Primitive.ofWrapper? s with
      | none => simp [Descriptor.unboxed, hs, Below]
      | some q =>
        obtain ⟨boxed, hboxed, hsub⟩ : ∃ boxed, p.wrapper? = some boxed ∧ h.isSubtype boxed s := by
          simpa [assignable, Option.any_eq_true] using hdec.1
        obtain rfl := hreg.final (Primitive.ofWrapper?_eq_some_iff.mp hs) hsub
        obtain rfl : q = p :=
          Option.some.inj (hs.symm.trans (Primitive.ofWrapper?_eq_some_iff.mpr hboxed))
        simp [Descriptor.unboxed, hs, Below, Primitive.widensTo_refl]
    | array y => simp [Decided, assignable] at hdec
    | typeVar name => simpa [Descriptor.isTypeVar] using hdec.not_typeVar
  | reference r =>
    cases y with
    | primitive q =>
      obtain ⟨a, ha, hwiden⟩ : ∃ a, Primitive.ofWrapper? r = some a ∧ a.widensTo q := by
        simpa [assignable, Option.any_eq_true] using hdec.1
      simpa [Descriptor.unboxed, ha, Below] using hwiden
    | reference s =>
      have hsub := hdec.isSubtype
      cases hs : Primitive.ofWrapper? s with
      | none =>
        cases hr : Primitive.ofWrapper? r <;> simp [Descriptor.unboxed, hr, hs, Below, hsub]
      | some q =>
        obtain rfl := hreg.final (Primitive.ofWrapper?_eq_some_iff.mp hs) hsub
        simp [Descriptor.unboxed, hs, Below, Primitive.widensTo_refl]
    | array y => simp [Decided, assignable] at hdec
    | typeVar name => simpa [Descriptor.isTypeVar] using hdec.not_typeVar
  | array x ih =>
    cases y with
    | primitive q => simp [Decided, assignable] at hdec
    | reference s =>
      have hs : Primitive.ofWrapper? s = none :=
        ofWrapper?_of_mem_arraySupertypes s (by simpa [assignable] using hdec.1)
      simp [Descriptor.unboxed, hs, Below]
    | array y =>
      rcases hdec.of_array with ⟨p, rfl, rfl⟩ | hdec
      · exact Primitive.widensTo_refl p
      · exact ih hdec
    | typeVar name => simpa [Descriptor.isTypeVar] using hdec.not_typeVar
  | typeVar name => simpa [Descriptor.isTypeVar] using hdec.not_typeVar

end Hierarchy

end JavaCallGraph
