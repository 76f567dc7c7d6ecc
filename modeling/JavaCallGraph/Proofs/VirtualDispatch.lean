import JavaCallGraph.Proofs.OverloadChoice
import JavaCallGraph.Proofs.PlainClasses

/-!
# Which methods virtual dispatch reaches

Each runtime type of the receiver prefers some of the methods that it sees. These are the callees,
with the overriding methods of the dispatched ones where the set of runtime types is unresolved. A
method with a body that overrides what the static type prefers can be lost. Then it does not fit
the arguments, or its class sees an overload that is more specific.
-/

namespace JavaCallGraph

namespace Catalog

variable {c : Catalog}

theorem mem_foldl_addOverrider {found methods : List Method} {m : Method}
    (h : m ∈ methods.foldl addOverrider found) : m ∈ found ∨ m ∈ methods := by
  induction methods generalizing found with
  | nil => exact .inl h
  | cons n methods ih =>
    rcases ih h with hfound | hmethods
    · unfold addOverrider at hfound
      split at hfound
      · exact .inl hfound
      · rcases List.mem_append.mp hfound with hold | hnew
        · exact .inl hold
        · exact .inr (by simp [List.mem_singleton.mp hnew])
    · exact .inr (List.mem_cons_of_mem n hmethods)

theorem exists_mem_foldl_addOverrider {found methods : List Method} {s : Signature}
    (h : (∃ m ∈ found, m.signature = s) ∨ ∃ m ∈ methods, m.signature = s) :
    ∃ m ∈ methods.foldl addOverrider found, m.signature = s := by
  induction methods generalizing found with
  | nil => simpa using h
  | cons n methods ih =>
    apply ih
    unfold addOverrider
    rcases h with ⟨m, hm, hs⟩ | ⟨m, hm, hs⟩
    · refine .inl ⟨m, ?_, hs⟩
      split
      · exact hm
      · exact List.mem_append_left _ hm
    · rcases List.mem_cons.mp hm with rfl | hm
      · left
        split
        · next hany =>
          obtain ⟨k, hk, hsame⟩ := List.any_eq_true.mp hany
          exact ⟨k, hk, by rw [← hs]; simpa using hsame⟩
        · exact ⟨m, by simp, hs⟩
      · exact .inr ⟨m, hm, hs⟩

theorem of_mem_overriders {h : Hierarchy} {m n : Method} (hn : n ∈ c.overriders h m) :
    ∃ sub ∈ h.descendants m.declaring, n ∈ (c.membersOf sub).methods := by
  rcases mem_foldl_addOverrider hn with hnil | hmem
  · simp at hnil
  · obtain ⟨sub, hsub, hvisible⟩ := List.mem_flatMap.mp hmem
    exact ⟨sub, by simpa using hsub, (List.mem_filter.mp hvisible).1⟩

theorem exists_mem_overriders {h : Hierarchy} {m n : Method} {sub : String}
    (hsub : sub ∈ h.descendants m.declaring) (hn : n ∈ (c.membersOf sub).methods)
    (hdispatched : n.isDispatched) (hshape : n.sameShape m) :
    ∃ k ∈ c.overriders h m, k.signature = n.signature := by
  apply exists_mem_foldl_addOverrider
  refine .inr ⟨n, List.mem_flatMap.mpr ⟨sub, by simpa using hsub, ?_⟩, rfl⟩
  exact List.mem_filter.mpr ⟨hn, by simp [hdispatched, hshape]⟩

end Catalog

namespace TypeIndex

variable {x : TypeIndex} {name : String} {args : ArgTypes} {set : ConstraintSet}
  {view : StaticType}

/-- The methods that dispatch over the set comes upon: what some runtime type prefers, and where
the set is unresolved what overrides it. -/
inductive Reaches (x : TypeIndex) (name : String) (args : ArgTypes) (set : ConstraintSet)
    (view : StaticType) : Method → Prop
  | preferred {t : String} {m : Method} : t ∈ set.types →
      Overload.Preferred x.hierarchy (x.candidates t name) args view m →
      Reaches x name args set view m
  | overriding {t : String} {m n : Method} : set.unresolved → t ∈ set.types →
      Overload.Preferred x.hierarchy (x.candidates t name) args view m → m.isDispatched →
      n ∈ x.catalog.overriders x.hierarchy m → Reaches x name args set view n

def Calls (x : TypeIndex) (name : String) (receiver : SiteReceiver) (args : ArgTypes)
    (s : Signature) : Prop :=
  ∃ r ∈ x.resolve name receiver args, r.method.signature = s

theorem isEmpty_eq_false {t : String} (ht : t ∈ set.types) : set.isEmpty = false := by
  rw [ConstraintSet.isEmpty, Bool.eq_false_iff, Ne, Std.ExtTreeSet.isEmpty_iff]
  intro hempty
  simp [hempty] at ht

theorem exists_mem_completeFor {found : List Resolution} {m : Method} :
    (∃ r ∈ x.completeFor set found, r.method = m) ↔
      (∃ r ∈ found, r.method = m) ∨ ((set.unresolved ∨ set.isEmpty) ∧
        ∃ r ∈ found, r.method.isDispatched ∧ m ∈ x.catalog.overriders x.hierarchy r.method) := by
  unfold completeFor
  split
  · next hopen =>
    simp only [expandOverrides, List.mem_append, List.mem_flatMap, List.mem_filter, List.mem_map]
    constructor
    · rintro ⟨r, hr | ⟨q, ⟨hq, hdispatched⟩, n, hn, rfl⟩, rfl⟩
      · exact .inl ⟨r, hr, rfl⟩
      · exact .inr ⟨by simpa using hopen, q, hq, hdispatched, hn⟩
    · rintro (⟨r, hr, rfl⟩ | ⟨-, q, hq, hdispatched, hm⟩)
      · exact ⟨r, .inl hr, rfl⟩
      · exact ⟨⟨m, q.bindings⟩, .inr ⟨q, ⟨hq, hdispatched⟩, m, hm, rfl⟩, rfl⟩
  · next hclosed =>
    constructor
    · exact .inl
    · rintro (h | ⟨hopen, -⟩)
      · exact h
      · exact absurd (by simpa using hopen) hclosed

theorem exists_mem_resolveInstance {t : String} (ht : t ∈ set.types) {m : Method} :
    (∃ r ∈ x.resolveInstance name args set (some view), r.method = m) ↔
      Reaches x name args set view m := by
  have hopen := isEmpty_eq_false ht
  have hfound (n : Method) : (∃ r ∈ set.types.toList.flatMap fun runtime =>
        Overload.select x.hierarchy (x.candidates runtime name) args view, r.method = n) ↔
      ∃ u ∈ set.types, Overload.Preferred x.hierarchy (x.candidates u name) args view n := by
    simp only [← Overload.exists_mem_select, List.mem_flatMap, Std.ExtTreeSet.mem_toList]
    constructor
    · rintro ⟨r, ⟨u, hu, hr⟩, rfl⟩
      exact ⟨u, hu, r, hr, rfl⟩
    · rintro ⟨u, hu, r, hr, rfl⟩
      exact ⟨r, ⟨u, hu, hr⟩, rfl⟩
  simp only [resolveInstance, receiverTypes, hopen, Bool.not_false, if_true, Option.getD_some]
  rw [exists_mem_completeFor, hfound]
  constructor
  · rintro (⟨u, hu, hpref⟩ | ⟨hunresolved | hempty, r, hr, hdispatched, hm⟩)
    · exact .preferred hu hpref
    · obtain ⟨u, hu, hpref⟩ := (hfound r.method).mp ⟨r, hr, rfl⟩
      exact .overriding hunresolved hu hpref hdispatched hm
    · simp [hopen] at hempty
  · intro hreach
    cases hreach with
    | preferred hu hpref => exact .inl ⟨_, hu, hpref⟩
    | overriding hunresolved hu hpref hdispatched hm =>
      obtain ⟨r, hr, rfl⟩ := (hfound _).mpr ⟨_, hu, hpref⟩
      exact .inr ⟨.inl hunresolved, r, hr, hdispatched, hm⟩

theorem calls_object_iff {t : String} (ht : t ∈ set.types) {s : Signature} :
    Calls x name (.object set (some view)) args s ↔
      ∃ m, Reaches x name args set view m ∧ m.signature = s ∧
        (m.isAbstract → ∀ k, Reaches x name args set view k → k.isAbstract) := by
  simp only [← exists_mem_resolveInstance ht]
  rw [Calls, resolve, Resolution.exists_mem_finish]
  constructor
  · rintro ⟨r, hr, hs, habs⟩
    refine ⟨r.method, ⟨r, hr, rfl⟩, hs, fun hm k hk => ?_⟩
    obtain ⟨q, hq, rfl⟩ := hk
    exact habs hm q hq
  · rintro ⟨m, ⟨r, hr, rfl⟩, hs, habs⟩
    exact ⟨r, hr, hs, fun hm q hq => habs hm q.method ⟨q, hq, rfl⟩⟩

theorem candidates_eq_methodsNamed {t : String} {m : Method}
    (hm : m ∈ x.catalog.methodsNamed t name) :
    x.candidates t name = x.catalog.methodsNamed t name := by
  have hsome : (x.catalog.methodsNamed t name).isEmpty = false := by
    rw [List.isEmpty_eq_false_iff]
    exact List.ne_nil_of_mem hm
  simp [candidates, hsome]

theorem strictlyMoreSpecific_of_params_eq {h : Hierarchy} {k m n : Method}
    (hparams : n.signature.params = m.signature.params) (hk : k.strictlyMoreSpecific h n) :
    k.strictlyMoreSpecific h m := by
  simp only [Method.strictlyMoreSpecific, Method.moreSpecific, Bool.and_eq_true, bne_iff_ne,
    hparams] at hk ⊢
  obtain ⟨⟨-, hkm⟩, hmk⟩ := hk
  refine ⟨⟨?_, hkm⟩, hmk⟩
  intro hsame
  rw [hsame] at hkm hmk
  simp [hkm] at hmk

section Loss

variable {type : String} {typeArgs : List StaticType} {r : Resolution} {t : String} {n : Method}
  {m : Method}

/-- A method with a body is a callee if its class prefers it. -/
theorem calls_of_preferred (ht : t ∈ set.types) (hbody : n.isAbstract = false)
    (hn : Overload.Preferred x.hierarchy (x.candidates t name) args view n) :
    Calls x name (.object set (some view)) args n.signature :=
  (calls_object_iff ht).mpr ⟨n, .preferred ht hn, rfl, by simp [hbody]⟩

theorem mem_methodsNamed_of_sameShape (hm : m ∈ x.catalog.methodsNamed type name)
    (hn : n ∈ (x.catalog.membersOf t).methods) (hshape : n.sameShape m) :
    n ∈ x.catalog.methodsNamed t name := by
  have hname : m.name = name := by
    simpa [Catalog.methodsNamed, TypeMembers.methodsNamed] using (List.mem_filter.mp hm).2
  refine List.mem_filter.mpr ⟨hn, ?_⟩
  simp only [Method.sameShape, Bool.and_eq_true, beq_iff_eq] at hshape
  simp [hshape.1, hname]

theorem exists_moreSpecific_of_not_calls
    (hpref : Overload.Preferred x.hierarchy (x.catalog.methodsNamed type name) args view m)
    (ht : t ∈ set.types) (hn : n ∈ x.catalog.methodsNamed t name) (hbody : n.isAbstract = false)
    (hlost : ¬ Calls x name (.object set (some view)) args n.signature)
    (hfits : Overload.Fits x.hierarchy args view n) :
    ∃ k ∈ x.catalog.methodsNamed t name, Overload.Fits x.hierarchy args view k ∧
      k.strictlyMoreSpecific x.hierarchy n ∧
      (n.signature.params = m.signature.params → k ∉ x.catalog.methodsNamed type name) := by
  by_contra hnone
  apply hlost
  refine calls_of_preferred ht hbody ⟨?_, hfits, ?_⟩
  · rwa [candidates_eq_methodsNamed hn]
  · rw [candidates_eq_methodsNamed hn]
    intro k hk hkfits hspecific
    refine hnone ⟨k, hk, hkfits, hspecific, fun hparams hktype => ?_⟩
    -- The static type has judged `k` by the same view of the arguments.
    exact hpref.maximal k hktype hkfits (strictlyMoreSpecific_of_params_eq hparams hspecific)

theorem calls_or_abstract_of_unresolved
    (hpref : Overload.Preferred x.hierarchy (x.catalog.methodsNamed type name) args view m)
    (hunresolved : set.unresolved) (htype : type ∈ set.types) (hm : m.isDispatched)
    (hn : n ∈ (x.catalog.membersOf t).methods) (hshape : n.sameShape m) (hndis : n.isDispatched)
    (hsub : t ∈ x.hierarchy.descendants m.declaring) :
    Calls x name (.object set (some view)) args n.signature ∨
      ∃ sub ∈ x.hierarchy.descendants m.declaring,
        ∃ k ∈ (x.catalog.membersOf sub).methods, k.signature = n.signature ∧ k.isAbstract := by
  obtain ⟨k, hk, hsignature⟩ := Catalog.exists_mem_overriders hsub hn hndis hshape
  rw [← candidates_eq_methodsNamed hpref.mem] at hpref
  have hreach : Reaches x name args set view k := .overriding hunresolved htype hpref hm hk
  by_cases habs : k.isAbstract
  · obtain ⟨sub, hsubk, hvisible⟩ := Catalog.of_mem_overriders hk
    exact .inr ⟨sub, hsubk, k, hvisible, hsignature, habs⟩
  · exact .inl ((calls_object_iff htype).mpr ⟨k, hreach, hsignature, fun h => absurd h habs⟩)

/-- A method of the shape of one that the static type prefers, with a body and seen by a runtime
type, is a callee exactly when dispatch reaches its signature with a body, or nothing with a body.
It is lost only if it does not fit, or to a more specific overload that fits and that the static
type does not see. An unresolved set that holds the static type does not lose an overriding method,
but for an abstract method of its signature. -/
theorem virtual_dispatch_exact
    (hr : r ∈ Overload.select x.hierarchy (x.catalog.methodsNamed type name) args
      ⟨.reference type, typeArgs⟩)
    (ht : t ∈ set.types) (hn : n ∈ (x.catalog.membersOf t).methods)
    (hshape : n.sameShape r.method) (hbody : n.isAbstract = false) :
    let view : StaticType := ⟨.reference type, typeArgs⟩
    let Called := Calls x name (.object set (some view)) args n.signature
    (Called ↔ ∃ m, Reaches x name args set view m ∧ m.signature = n.signature ∧
      (m.isAbstract → ∀ k, Reaches x name args set view k → k.isAbstract)) ∧
    (¬ Called → Overload.Fits x.hierarchy args view n →
      ∃ k ∈ x.catalog.methodsNamed t name, Overload.Fits x.hierarchy args view k ∧
        k.strictlyMoreSpecific x.hierarchy n ∧
        (n.signature.params = r.method.signature.params →
          k ∉ x.catalog.methodsNamed type name)) ∧
    (set.unresolved → type ∈ set.types → r.method.isDispatched → n.isDispatched →
      t ∈ x.hierarchy.descendants r.method.declaring →
      Called ∨ ∃ sub ∈ x.hierarchy.descendants r.method.declaring,
        ∃ k ∈ (x.catalog.membersOf sub).methods, k.signature = n.signature ∧ k.isAbstract) := by
  intro view Called
  have hpref : Overload.Preferred x.hierarchy (x.catalog.methodsNamed type name) args view
      r.method := Overload.exists_mem_select.mp ⟨r, hr, rfl⟩
  have hnamed := mem_methodsNamed_of_sameShape hpref.mem hn hshape
  refine ⟨calls_object_iff ht, ?_, ?_⟩
  · exact exists_moreSpecific_of_not_calls hpref ht hnamed hbody
  · intro hunresolved htype hm hndis hsub
    exact calls_or_abstract_of_unresolved hpref hunresolved htype hm hn hshape hndis hsub

end Loss

/-! ### A lost method -/

/-- Every runtime type below the static type is called with its own version of what the static type
prefers. -/
def DispatchSound (x : TypeIndex) : Prop :=
  ∀ (name : String) (args : ArgTypes) (set : ConstraintSet) (type : String)
    (typeArgs : List StaticType),
    ∀ r ∈ Overload.select x.hierarchy (x.catalog.methodsNamed type name) args
      ⟨.reference type, typeArgs⟩,
    ∀ t ∈ set.types, x.hierarchy.isSubtype t type →
    ∀ n ∈ (x.catalog.membersOf t).methods, n.sameShape r.method → n.isAbstract = false →
      Calls x name (.object set (some ⟨.reference type, typeArgs⟩)) args n.signature

def overloaded : CompilationUnit :=
  .plain [.plain "C" none [], .plain "D" (some "C") [],
    .plain "A" none [.plain "m" [("C", "c")] "void" []],
    .plain "B" (some "A") [.plain "m" [("D", "d")] "void" []]]

/-- In the call `a.m(new D())`, for an `a` that is declared as an `A` and holds a `B`, the method
`n` is passed over, though it fits and has the parameters of `m`. -/
def PassedOver (x : TypeIndex) (m n : Method) : Prop :=
  n.sameShape m ∧ n.isAbstract = false ∧ n.signature.params = m.signature.params ∧
    Overload.Fits x.hierarchy [some (.reference "p.D")] (.reference "p.A") n ∧
    ∀ r ∈ x.resolve "m" (.object (.exact "p.B") (some (.reference "p.A")))
      [some (.reference "p.D")], r.method.signature ≠ n.signature

instance {x : TypeIndex} {m n : Method} : Decidable (PassedOver x m n) :=
  inferInstanceAs (Decidable (_ ∧ _))

theorem exists_passedOver : ∃ p, Program.build [overloaded] {} .degrade = .ok p ∧
    p.index.hierarchy.isSubtype "p.B" "p.A" ∧
    ∃ r ∈ Overload.select p.index.hierarchy (p.index.catalog.methodsNamed "p.A" "m")
      [some (.reference "p.D")] (.reference "p.A"),
      ∃ n ∈ (p.index.catalog.membersOf "p.B").methods, PassedOver p.index r.method n := by
  obtain ⟨p, hp, h⟩ := exists_ok_of_any (Program.build [overloaded] {} .degrade)
    (fun p => p.index.hierarchy.isSubtype "p.B" "p.A" &&
      decide (∃ r ∈ Overload.select p.index.hierarchy (p.index.catalog.methodsNamed "p.A" "m")
        [some (.reference "p.D")] (.reference "p.A"),
        ∃ n ∈ (p.index.catalog.membersOf "p.B").methods, PassedOver p.index r.method n))
    (by decide +kernel)
  rw [Bool.and_eq_true, decide_eq_true_eq] at h
  exact ⟨p, hp, h⟩

theorem not_dispatchSound_overloaded : ∃ p, Program.build [overloaded] {} .degrade = .ok p ∧
    ¬ p.index.DispatchSound := by
  obtain ⟨p, hp, hsub, r, hr, n, hn, hshape, hbody, -, -, hlost⟩ := exists_passedOver
  refine ⟨p, hp, fun hsound => ?_⟩
  obtain ⟨q, hq, hsignature⟩ := hsound "m" [some (.reference "p.D")] (.exact "p.B") "p.A" [] r hr
    "p.B" (by decide +kernel) hsub n hn hshape hbody
  exact hlost q hq hsignature

/-- The class sees a more specific overload that the declared type does not see. -/
theorem virtual_dispatch_exact_overloaded :
    ∃ p, Program.build [overloaded] {} .degrade = .ok p ∧
      ∃ r ∈ Overload.select p.index.hierarchy (p.index.catalog.methodsNamed "p.A" "m")
        [some (.reference "p.D")] (.reference "p.A"),
      ∃ n ∈ (p.index.catalog.membersOf "p.B").methods, PassedOver p.index r.method n ∧
        ∃ k ∈ p.index.catalog.methodsNamed "p.B" "m",
          k.strictlyMoreSpecific p.index.hierarchy n ∧
            k ∉ p.index.catalog.methodsNamed "p.A" "m" := by
  obtain ⟨p, hp, -, r, hr, n, hn, hpassed⟩ := exists_passedOver
  have ⟨hshape, hbody, hparams, hfits, hlost⟩ := hpassed
  have ht : "p.B" ∈ (ConstraintSet.exact "p.B").types := by decide +kernel
  obtain ⟨-, hloss, -⟩ := virtual_dispatch_exact hr ht hn hshape hbody
  obtain ⟨k, hk, -, hspecific, hunseen⟩ :=
    hloss (fun ⟨q, hq, hsignature⟩ => hlost q hq hsignature) hfits
  exact ⟨p, hp, r, hr, n, hn, hpassed, k, hk, hspecific, hunseen hparams⟩

end TypeIndex

end JavaCallGraph
