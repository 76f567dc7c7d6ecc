import JavaCallGraph.Proofs.ConversionOrder
import JavaCallGraph.Proofs.PlainClasses

/-!
# Conversion in method invocations

The rules by which an argument of one type is passed to a parameter of another: identity, widening
of primitive types, subtyping of classes and arrays, boxing and unboxing. Between known types these
rules are what assignability decides, but for one thing: boxing and unboxing reach through arrays.
An array of numbers passes for an array of boxed numbers, which no rule allows.
-/

namespace JavaCallGraph

/-- Widening of primitive types, one step after the other; a type widens to itself. -/
inductive Primitive.Widens : Primitive → Primitive → Prop
  | refl (p : Primitive) : Widens p p
  | byte {p : Primitive} : Widens .short p → Widens .byte p
  | short {p : Primitive} : Widens .int p → Widens .short p
  | char {p : Primitive} : Widens .int p → Widens .char p
  | int {p : Primitive} : Widens .long p → Widens .int p
  | long {p : Primitive} : Widens .float p → Widens .long p
  | float {p : Primitive} : Widens .double p → Widens .float p

theorem Primitive.widensTo_iff {p q : Primitive} : p.widensTo q ↔ p.Widens q := by
  constructor
  · intro h
    cases p <;> cases q <;> simp [widensTo] at h <;> repeat constructor
  · intro h
    induction h with
    | refl p => exact widensTo_refl p
    | byte _ ih => exact widensTo_trans (by decide) ih
    | short _ ih => exact widensTo_trans (by decide) ih
    | char _ ih => exact widensTo_trans (by decide) ih
    | int _ ih => exact widensTo_trans (by decide) ih
    | long _ ih => exact widensTo_trans (by decide) ih
    | float _ ih => exact widensTo_trans (by decide) ih

namespace Hierarchy

variable {h : Hierarchy} {x y : Descriptor}

inductive ReferenceSubtype (h : Hierarchy) : Descriptor → Descriptor → Prop
  | type {a b : String} : h.isSubtype a b → ReferenceSubtype h (.reference a) (.reference b)
  | arrayType {x : Descriptor} {r : String} : r ∈ arraySupertypes →
      ReferenceSubtype h (.array x) (.reference r)
  | primitiveElements (p : Primitive) :
      ReferenceSubtype h (.array (.primitive p)) (.array (.primitive p))
  | elements {x y : Descriptor} : ReferenceSubtype h x y →
      ReferenceSubtype h (.array x) (.array y)

inductive Boxing (h : Hierarchy) : Descriptor → Descriptor → Prop
  | box {p : Primitive} {wrapper : String} {y : Descriptor} : p.wrapper? = some wrapper →
      ReferenceSubtype h (.reference wrapper) y → Boxing h (.primitive p) y
  | unbox {wrapper : String} {p q : Primitive} : p.wrapper? = some wrapper → p.Widens q →
      Boxing h (.reference wrapper) (.primitive q)

inductive Converts (h : Hierarchy) : Descriptor → Descriptor → Prop
  | identity (x : Descriptor) : Converts h x x
  | widening {p q : Primitive} : p.Widens q → Converts h (.primitive p) (.primitive q)
  | subtyping {x y : Descriptor} : ReferenceSubtype h x y → Converts h x y
  | boxing {x y : Descriptor} : Boxing h x y → Converts h x y

/-- The elements of two arrays are boxed or unboxed, at any depth. -/
inductive BoxesElements (h : Hierarchy) : Descriptor → Descriptor → Prop
  | elements {x y : Descriptor} : Boxing h x y → BoxesElements h (.array x) (.array y)
  | nested {x y : Descriptor} : BoxesElements h x y → BoxesElements h (.array x) (.array y)

/-! ### What the rules allow is assignable -/

theorem assignable_refl (h : Hierarchy) (x : Descriptor) : h.assignable x x := by
  induction x with
  | primitive p => exact Primitive.widensTo_refl p
  | reference a => simp [assignable, isSubtype_refl]
  | array x ih =>
    rw [assignable_array_iff]
    by_cases hprim : x.isPrimitive
    · obtain ⟨p, rfl⟩ := Descriptor.isPrimitive_iff.mp hprim
      exact .inl ⟨p, rfl, rfl⟩
    · exact .inr ⟨fun hboth => hprim hboth.1, ih⟩
  | typeVar name => rfl

theorem ReferenceSubtype.not_isPrimitive (hsub : h.ReferenceSubtype x y) :
    x.isPrimitive = false ∧ y.isPrimitive = false := by
  cases hsub <;> exact ⟨rfl, rfl⟩

theorem ReferenceSubtype.assignable (hsub : h.ReferenceSubtype x y) : h.assignable x y := by
  induction hsub with
  | type hab => simp [Hierarchy.assignable, hab]
  | arrayType hr => simpa [Hierarchy.assignable] using hr
  | primitiveElements p => exact assignable_array_iff.mpr (.inl ⟨p, rfl, rfl⟩)
  | elements hsub ih =>
    refine assignable_array_iff.mpr (.inr ⟨?_, ih⟩)
    simp [hsub.not_isPrimitive]

theorem Boxing.assignable (hbox : h.Boxing x y) : h.assignable x y := by
  cases hbox with
  | box hwrapper hsub =>
    cases hsub with
    | type hab => simp [Hierarchy.assignable, hwrapper, hab]
  | unbox hwrapper hwidens =>
    simp [Hierarchy.assignable, Primitive.ofWrapper?_eq_some_iff.mpr hwrapper,
      Primitive.widensTo_iff.mpr hwidens]

theorem Boxing.not_both_isPrimitive (hbox : h.Boxing x y) : ¬ (x.isPrimitive ∧ y.isPrimitive) := by
  cases hbox with
  | box _ hsub => simp [hsub.not_isPrimitive]
  | unbox _ _ => simp [Descriptor.isPrimitive]

theorem Converts.assignable (hconv : h.Converts x y) : h.assignable x y := by
  cases hconv with
  | identity => exact assignable_refl h x
  | widening hwidens => exact Primitive.widensTo_iff.mpr hwidens
  | subtyping hsub => exact hsub.assignable
  | boxing hbox => exact hbox.assignable

theorem BoxesElements.not_isPrimitive (hbox : h.BoxesElements x y) : x.isPrimitive = false := by
  cases hbox <;> rfl

theorem BoxesElements.assignable (hbox : h.BoxesElements x y) : h.assignable x y := by
  induction hbox with
  | elements hbox =>
    exact assignable_array_iff.mpr (.inr ⟨hbox.not_both_isPrimitive, hbox.assignable⟩)
  | nested hbox ih =>
    refine assignable_array_iff.mpr (.inr ⟨?_, ih⟩)
    simp [hbox.not_isPrimitive]

/-! ### What is assignable is allowed, or boxes elements -/

theorem converts_of_assignable_primitive {p : Primitive} (hy : h.Known y)
    (hassign : h.assignable (.primitive p) y) : h.Converts (.primitive p) y := by
  cases y with
  | primitive q => exact .widening (Primitive.widensTo_iff.mp hassign)
  | reference r =>
    obtain ⟨boxed, hboxed, hsub⟩ : ∃ boxed, p.wrapper? = some boxed ∧ h.isSubtype boxed r := by
      simpa [assignable, Option.any_eq_true] using hassign
    exact .boxing (.box hboxed (.type hsub))
  | array y => simp [assignable] at hassign
  | typeVar name => simp [Known] at hy

theorem converts_of_assignable_reference {a : String} (ha : h.Known (.reference a))
    (hy : h.Known y) (hassign : h.assignable (.reference a) y) :
    h.Converts (.reference a) y := by
  cases y with
  | primitive q =>
    obtain ⟨p, hp, hwidens⟩ : ∃ p, Primitive.ofWrapper? a = some p ∧ p.widensTo q := by
      simpa [assignable, Option.any_eq_true] using hassign
    exact .boxing (.unbox (Primitive.ofWrapper?_eq_some_iff.mp hp)
      (Primitive.widensTo_iff.mp hwidens))
  | reference b =>
    -- Both names are declared, so neither of them is assignable for want of knowledge.
    simp only [Known, Bool.not_eq_true'] at ha hy
    exact .subtyping (.type (by simpa [assignable, ha, hy] using hassign))
  | array y => simp [assignable] at hassign
  | typeVar name => simp [Known] at hy

/-- Between arrays, what converts the elements either is subtyping or boxes them. -/
theorem Converts.array (hconv : h.Converts x y) (hprim : ¬ (x.isPrimitive ∧ y.isPrimitive)) :
    h.Converts (.array x) (.array y) ∨ h.BoxesElements (.array x) (.array y) := by
  cases hconv with
  | identity => exact .inl (.identity _)
  | widening _ => exact absurd ⟨rfl, rfl⟩ hprim
  | subtyping hsub => exact .inl (.subtyping (.elements hsub))
  | boxing hbox => exact .inr (.elements hbox)

theorem converts_or_boxesElements_of_assignable (hx : h.Known x) (hy : h.Known y)
    (hassign : h.assignable x y) : h.Converts x y ∨ h.BoxesElements x y := by
  induction x generalizing y with
  | primitive p => exact .inl (converts_of_assignable_primitive hy hassign)
  | reference a => exact .inl (converts_of_assignable_reference hx hy hassign)
  | array x ih =>
    cases y with
    | primitive q => simp [assignable] at hassign
    | reference r =>
      exact .inl (.subtyping (.arrayType (by simpa [assignable] using hassign)))
    | array y =>
      rcases assignable_array_iff.mp hassign with ⟨p, rfl, rfl⟩ | ⟨hprim, hassign⟩
      · exact .inl (.identity _)
      · have hyelement : h.Known y := hy
        rcases ih hx hyelement hassign with hconv | hbox
        · exact hconv.array hprim
        · exact .inr (.nested hbox)
    | typeVar name => simp [Known] at hy
  | typeVar name => simp [Known] at hx

/-! ### Boxing of elements is not allowed -/

theorem Boxing.not_referenceSubtype (hbox : h.Boxing x y) : ¬ h.ReferenceSubtype x y := by
  intro hsub
  cases hbox with
  | box _ _ => cases hsub
  | unbox _ _ => cases hsub

theorem Boxing.ne (hbox : h.Boxing x y) : x ≠ y := by
  rintro rfl
  cases hbox with
  | box _ hsub => cases hsub

theorem BoxesElements.not_referenceSubtype (hbox : h.BoxesElements x y) :
    ¬ h.ReferenceSubtype x y := by
  induction hbox with
  | elements hbox =>
    intro hsub
    cases hsub with
    | primitiveElements p => exact hbox.ne rfl
    | elements hsub => exact hbox.not_referenceSubtype hsub
  | nested hbox ih =>
    intro hsub
    cases hsub with
    | primitiveElements p => cases hbox
    | elements hsub => exact ih hsub

theorem BoxesElements.ne (hbox : h.BoxesElements x y) : x ≠ y := by
  induction hbox with
  | elements hbox => exact fun heq => hbox.ne (Descriptor.array.inj heq)
  | nested hbox ih => exact fun heq => ih (Descriptor.array.inj heq)

theorem BoxesElements.not_converts (hbox : h.BoxesElements x y) : ¬ h.Converts x y := by
  intro hconv
  cases hconv with
  | identity => exact hbox.ne rfl
  | widening _ => cases hbox
  | subtyping hsub => exact hbox.not_referenceSubtype hsub
  | boxing hboxing =>
    cases hbox with
    | elements _ => cases hboxing
    | nested _ => cases hboxing

/-- Between known types, what is assignable is what the rules of conversion allow, and beyond them
exactly what boxes or unboxes the elements of arrays. -/
theorem assignable_iff_converts_or_boxesElements (hx : h.Known x) (hy : h.Known y) :
    (h.assignable x y ↔ h.Converts x y ∨ h.BoxesElements x y) ∧
      (h.BoxesElements x y → ¬ h.Converts x y) := by
  refine ⟨⟨converts_or_boxesElements_of_assignable hx hy, ?_⟩, fun hbox => hbox.not_converts⟩
  rintro (hconv | hbox)
  · exact hconv.assignable
  · exact hbox.assignable

/-! ### Arrays of numbers -/

def wrapperNodes : List TypeNode :=
  [{ name := Descriptor.objectName },
    { name := "java.lang.Integer", superclass := some Descriptor.objectName }]

def intArray : Descriptor := .array (.primitive .int)

def integerArray : Descriptor := .array (.reference "java.lang.Integer")

theorem exists_wrapperHierarchy : ∃ h, build wrapperNodes .degrade = .ok h ∧
    h.Known intArray ∧ h.Known integerArray ∧ h.Known (.array .object) ∧
    h.assignable intArray integerArray := by
  obtain ⟨h, hb, hknown⟩ := exists_ok_of_any (build wrapperNodes .degrade)
    (fun h => decide (h.Known intArray ∧ h.Known integerArray ∧ h.Known (.array .object) ∧
      h.assignable intArray integerArray))
    (by decide +kernel)
  exact ⟨h, hb, of_decide_eq_true hknown⟩

/-- Rows of numbers are objects, and numbers are not boxed. -/
theorem assignable_iff_converts_or_boxesElements_rows :
    ∃ h, build wrapperNodes .degrade = .ok h ∧ h.Converts (.array intArray) (.array .object) ∧
      h.assignable (.array intArray) (.array .object) ∧
      h.BoxesElements (.array integerArray) (.array intArray) ∧
      h.assignable (.array integerArray) (.array intArray) ∧
      ¬ h.Converts (.array integerArray) (.array intArray) := by
  obtain ⟨h, hb, hint, hinteger, hobject, -⟩ := exists_wrapperHierarchy
  have hrows : h.Converts (.array intArray) (.array .object) :=
    .subtyping (.elements (.arrayType (by decide)))
  have hboxes : h.BoxesElements (.array integerArray) (.array intArray) :=
    .nested (.elements (.unbox rfl (.refl _)))
  obtain ⟨hobjects, -⟩ := assignable_iff_converts_or_boxesElements (x := .array intArray) hint
    hobject
  obtain ⟨hnumbers, hnone⟩ := assignable_iff_converts_or_boxesElements (x := .array integerArray)
    (y := .array intArray) hinteger hint
  exact ⟨h, hb, hrows, hobjects.mpr (.inl hrows), hboxes, hnumbers.mpr (.inr hboxes),
    hnone hboxes⟩

def FollowsRules (h : Hierarchy) : Prop :=
  ∀ x y, h.Known x → h.Known y → (h.assignable x y ↔ h.Converts x y)

/-- An array of numbers passes for an array of boxed numbers. -/
theorem not_followsRules_intArray :
    ∃ h, build wrapperNodes .degrade = .ok h ∧ ¬ h.FollowsRules := by
  obtain ⟨h, hb, hint, hinteger, -, hassign⟩ := exists_wrapperHierarchy
  refine ⟨h, hb, fun hrules => ?_⟩
  have hboxes : h.BoxesElements intArray integerArray :=
    .elements (.box rfl (.type (isSubtype_refl h _)))
  exact hboxes.not_converts ((hrules _ _ hint hinteger).mp hassign)

end Hierarchy

end JavaCallGraph
