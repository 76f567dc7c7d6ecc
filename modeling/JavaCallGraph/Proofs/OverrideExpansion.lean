import JavaCallGraph.Proofs.FirstDeclarations
import JavaCallGraph.Proofs.PlainClasses

/-!
# Overriding methods of all subtypes

Where the set of runtime types is unresolved, a call also reaches what overrides a method that the
static type prefers. Overriding methods are looked for below the declaring type, and all subtypes
of the static type lie there. So none of them is lost, but for one: a type that declares a method
twice, first without a body, is taken to have it without a body.
-/

namespace JavaCallGraph

namespace Program

variable {units : List CompilationUnit} {library : Library} {policy : CyclePolicy} {p : Program}
  {name type t : String} {args : ArgTypes} {set : ConstraintSet} {typeArgs : List StaticType}
  {r : Resolution} {m n : Method}

theorem mem_descendants_declaring (hb : build units library policy = .ok p)
    (hroot : p.hierarchy.nodes.supertypes Descriptor.objectName = [])
    (hm : m ∈ (p.catalog.membersOf type).methods)
    (hdeclaring : m.declaring ≠ Descriptor.objectName) (ht : t ∈ p.hierarchy.descendants type) :
    t ∈ p.hierarchy.descendants m.declaring := by
  obtain ⟨nodes, hbuild, -⟩ := build_hierarchy_of_build hb
  exact (sees_of_mem_methods hb hm).mem_descendants hbuild hroot hdeclaring ht

/-- Every method that a subtype of the static type sees in place of a dispatched method that the
static type prefers is a callee if its first declaration has a body, whether or not the subtype is
in the set. -/
theorem override_expansion_complete (hb : build units library policy = .ok p)
    (hroot : p.hierarchy.nodes.supertypes Descriptor.objectName = [])
    (hunresolved : set.unresolved) (htype : type ∈ set.types)
    (hr : r ∈ Overload.select p.hierarchy (p.catalog.methodsNamed type name) args
      ⟨.reference type, typeArgs⟩)
    (hdispatched : r.method.isDispatched)
    (hdeclaring : r.method.declaring ≠ Descriptor.objectName)
    (ht : t ∈ p.hierarchy.descendants type) (hn : n ∈ (p.catalog.membersOf t).methods)
    (hshape : n.sameShape r.method) (hndispatched : n.isDispatched)
    (hbody : ∀ k ∈ p.hierarchy.firstDeclared? n.signature, k.isAbstract = false) :
    p.index.Calls name (.object set (some ⟨.reference type, typeArgs⟩)) args n.signature := by
  have hpref := Overload.exists_mem_select.mp ⟨r, hr, rfl⟩
  have hsub : t ∈ p.hierarchy.descendants r.method.declaring :=
    mem_descendants_declaring hb hroot (List.mem_filter.mp hpref.mem).1 hdeclaring ht
  obtain ⟨k, hk, hsignature⟩ := Catalog.exists_mem_overriders hsub hn hndispatched hshape
  have hkbody : k.isAbstract = false :=
    hbody k (hsignature ▸ firstDeclared?_of_mem_overriders hb hk)
  refine (TypeIndex.calls_object_iff htype).mpr ⟨k, ?_, hsignature, by simp [hkbody]⟩
  refine .overriding hunresolved htype ?_ hdispatched hk
  rwa [TypeIndex.candidates_eq_methodsNamed hpref.mem]

/-! ### Programs with overriding methods -/

def plainBody : MethodDecl := .plain "f" [] "void" []

/-- Two classes with a body for the method of an abstract class, and one between them that inherits
it. -/
def layered : CompilationUnit :=
  .plain [.plain "A" none [plainBody.withoutBody], .plain "B" (some "A") [plainBody],
    .plain "C" (some "B") [], .plain "D" (some "C") [plainBody]]

def openCall (type : String) : SiteReceiver :=
  .object ⟨{type}, true⟩ (some (.reference type))

theorem override_expansion_complete_layered : ∃ p, build [layered] {} .degrade = .ok p ∧
    p.index.Calls "f" (openCall "p.A") [] ⟨"p.D", "f", [], .void⟩ := by
  obtain ⟨p, hp, h⟩ := exists_ok_of_any (build [layered] {} .degrade)
    (fun p => decide (p.hierarchy.nodes.supertypes Descriptor.objectName = [] ∧
      "p.D" ∈ p.hierarchy.descendants "p.A" ∧
      ∃ r ∈ Overload.select p.hierarchy (p.catalog.methodsNamed "p.A" "f") []
        (.reference "p.A"), r.method.isDispatched ∧
        r.method.declaring ≠ Descriptor.objectName ∧
        ∃ n ∈ (p.catalog.membersOf "p.D").methods, n.sameShape r.method ∧ n.isDispatched ∧
          (∀ k ∈ p.hierarchy.firstDeclared? n.signature, k.isAbstract = false) ∧
          n.signature = ⟨"p.D", "f", [], .void⟩))
    (by decide +kernel)
  rw [decide_eq_true_eq] at h
  obtain ⟨hroot, ht, r, hr, hdispatched, hdeclaring, n, hn, hshape, hndispatched, hbody,
    hsignature⟩ := h
  refine ⟨p, hp, ?_⟩
  rw [← hsignature]
  exact override_expansion_complete hp hroot rfl (by decide +kernel) hr hdispatched hdeclaring ht
    hn hshape hndispatched hbody

/-- Every method with a body that a subtype of the static type sees in place of what the static
type prefers is a callee. -/
def ExpansionComplete (p : Program) : Prop :=
  ∀ (name : String) (args : ArgTypes) (set : ConstraintSet) (type : String)
    (typeArgs : List StaticType), set.unresolved → type ∈ set.types →
    ∀ r ∈ Overload.select p.hierarchy (p.catalog.methodsNamed type name) args
      ⟨.reference type, typeArgs⟩,
    r.method.isDispatched → r.method.declaring ≠ Descriptor.objectName →
    ∀ t ∈ p.hierarchy.descendants type, ∀ n ∈ (p.catalog.membersOf t).methods,
    n.sameShape r.method → n.isDispatched → n.isAbstract = false →
      p.index.Calls name (.object set (some ⟨.reference type, typeArgs⟩)) args n.signature

/-- A class that declares what it overrides twice, first without a body. -/
def redeclared : CompilationUnit :=
  .plain [.plain "B" none [plainBody],
    .plain "A" (some "B") [plainBody.withoutBody, plainBody]]

/-- The body that comes second is not found. -/
theorem not_expansionComplete_redeclared : ∃ p, build [redeclared] {} .degrade = .ok p ∧
    p.hierarchy.nodes.supertypes Descriptor.objectName = [] ∧ ¬ p.ExpansionComplete := by
  obtain ⟨p, hp, h⟩ := exists_ok_of_any (build [redeclared] {} .degrade)
    (fun p => decide (p.hierarchy.nodes.supertypes Descriptor.objectName = [] ∧
      "p.A" ∈ p.hierarchy.descendants "p.B" ∧
      ∃ r ∈ Overload.select p.hierarchy (p.catalog.methodsNamed "p.B" "f") []
        (.reference "p.B"), r.method.isDispatched ∧
        r.method.declaring ≠ Descriptor.objectName ∧
        ∃ n ∈ (p.catalog.membersOf "p.A").methods, n.sameShape r.method ∧ n.isDispatched ∧
          n.isAbstract = false ∧
          ∀ q ∈ p.index.resolve "f" (openCall "p.B") [], q.method.signature ≠ n.signature))
    (by decide +kernel)
  rw [decide_eq_true_eq] at h
  obtain ⟨hroot, ht, r, hr, hdispatched, hdeclaring, n, hn, hshape, hndispatched, hbody, hlost⟩ := h
  refine ⟨p, hp, hroot, fun hcomplete => ?_⟩
  obtain ⟨q, hq, hsignature⟩ := hcomplete "f" [] ⟨{"p.B"}, true⟩ "p.B" [] rfl (by decide +kernel) r
    hr hdispatched hdeclaring "p.A" ht n hn hshape hndispatched hbody
  exact hlost q hq hsignature

end Program

end JavaCallGraph
