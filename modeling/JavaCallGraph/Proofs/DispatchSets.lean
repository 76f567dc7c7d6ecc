import JavaCallGraph.Proofs.VirtualDispatch

/-!
# Dispatch over sets of runtime types

What a call may run is put together from what each runtime type of the receiver adds: the methods
that the type prefers and, where the set is unresolved, those that override them. Only abstract
methods depend on the set as a whole. So a larger set of runtime types never loses a method with a
body, and a set has the callees of its members.
-/

namespace JavaCallGraph

namespace Resolution

variable {found : List Resolution}

theorem signature_of_mem_bySignature {s : Signature} {r : Resolution}
    (h : (s, r) ∈ (bySignature found).toList) : r.method.signature = s := by
  rw [Std.ExtTreeMap.mem_toList_iff_getElem?_eq_some, getElem?_bySignature] at h
  simpa using List.find?_some h

theorem mem_of_mem_sortUnique {r : Resolution} (h : r ∈ sortUnique found) : r ∈ found := by
  obtain ⟨entry, hentry, rfl⟩ := List.mem_map.mp h
  rw [Std.ExtTreeMap.mem_toList_iff_getElem?_eq_some, getElem?_bySignature] at hentry
  exact List.mem_of_find?_eq_some hentry

/-- The signatures of what is found increase strictly. -/
theorem pairwise_finish (found : List Resolution) :
    (finish found).Pairwise fun r q => compare r.method.signature q.method.signature = .lt := by
  rw [finish, sortUnique, List.pairwise_map]
  refine Std.ExtTreeMap.ordered_keys_toList.imp_of_mem fun {a b} ha hb hlt => ?_
  rwa [signature_of_mem_bySignature ha, signature_of_mem_bySignature hb]

/-- Abstract methods are found alone. -/
theorem isAbstract_of_mem_finish {r q : Resolution} (hr : r ∈ finish found)
    (hbody : r.method.isAbstract = false) (hq : q ∈ finish found) :
    q.method.isAbstract = false := by
  have hrfound := (mem_dropAbstract.mp (mem_of_mem_sortUnique hr)).1
  obtain ⟨-, habs⟩ := mem_dropAbstract.mp (mem_of_mem_sortUnique hq)
  rw [Bool.eq_false_iff]
  intro hqabs
  simp [habs hqabs r hrfound] at hbody

/-- A method with a body is never dropped. -/
theorem exists_body_mem_finish {s : Signature} :
    (∃ r ∈ finish found, r.method.signature = s ∧ r.method.isAbstract = false) ↔
      ∃ r ∈ found, r.method.signature = s ∧ r.method.isAbstract = false := by
  constructor
  · rintro ⟨r, hr, hs, hbody⟩
    exact ⟨r, (mem_dropAbstract.mp (mem_of_mem_sortUnique hr)).1, hs, hbody⟩
  · rintro ⟨r, hr, rfl, hbody⟩
    have hkept : r ∈ dropAbstract found := mem_dropAbstract.mpr ⟨hr, by simp [hbody]⟩
    obtain ⟨q, hq, hsignature⟩ := exists_mem_sortUnique.mpr ⟨r, hkept, rfl⟩
    obtain ⟨-, habs⟩ := mem_dropAbstract.mp (mem_of_mem_sortUnique hq)
    refine ⟨q, hq, hsignature, ?_⟩
    rw [Bool.eq_false_iff]
    intro hqabs
    simp [habs hqabs r hr] at hbody

end Resolution

namespace TypeIndex

variable {x : TypeIndex} {name : String} {args : ArgTypes} {set : ConstraintSet}
  {type : Option StaticType} {s : Signature} {m : Method}

def CallsBody (x : TypeIndex) (name : String) (receiver : SiteReceiver) (args : ArgTypes)
    (s : Signature) : Prop :=
  ∃ r ∈ x.resolve name receiver args, r.method.signature = s ∧ r.method.isAbstract = false

/-- The methods that one runtime type adds to the callees: what it prefers and, where overriding
methods are looked for too, what overrides that. -/
def Adds (x : TypeIndex) (name : String) (args : ArgTypes) (type : Option StaticType)
    (withOverriding : Bool) (t : String) (m : Method) : Prop :=
  ∃ r ∈ Overload.select x.hierarchy (x.candidates t name) args (type.getD (.reference t)),
    r.method = m ∨
      withOverriding ∧ r.method.isDispatched ∧ m ∈ x.catalog.overriders x.hierarchy r.method

theorem exists_mem_resolveInstance_iff_adds (hset : set.isEmpty = false) :
    (∃ r ∈ x.resolveInstance name args set type, r.method = m) ↔
      ∃ t ∈ set.types, x.Adds name args type set.unresolved t m := by
  simp only [resolveInstance, receiverTypes, hset, Bool.not_false, if_true]
  rw [exists_mem_completeFor]
  simp only [List.mem_flatMap, Std.ExtTreeSet.mem_toList, hset, Bool.false_eq_true, or_false]
  constructor
  · rintro (⟨r, ⟨t, ht, hr⟩, rfl⟩ | ⟨hopen, r, ⟨t, ht, hr⟩, hdispatched, hm⟩)
    · exact ⟨t, ht, r, hr, .inl rfl⟩
    · exact ⟨t, ht, r, hr, .inr ⟨hopen, hdispatched, hm⟩⟩
  · rintro ⟨t, ht, r, hr, rfl | ⟨hopen, hdispatched, hm⟩⟩
    · exact .inl ⟨r, ⟨t, ht, hr⟩, rfl⟩
    · exact .inr ⟨hopen, r, ⟨t, ht, hr⟩, hdispatched, hm⟩

/-- The callees with a body are what the runtime types add, each on its own. -/
theorem callsBody_object_iff (hset : set.isEmpty = false) :
    x.CallsBody name (.object set type) args s ↔
      ∃ t ∈ set.types, ∃ m, x.Adds name args type set.unresolved t m ∧ m.signature = s ∧
        m.isAbstract = false := by
  rw [CallsBody, resolve, Resolution.exists_body_mem_finish]
  constructor
  · rintro ⟨r, hr, hs, hbody⟩
    obtain ⟨t, ht, hadds⟩ := (exists_mem_resolveInstance_iff_adds hset).mp ⟨r, hr, rfl⟩
    exact ⟨t, ht, r.method, hadds, hs, hbody⟩
  · rintro ⟨t, ht, m, hadds, hs, hbody⟩
    obtain ⟨r, hr, rfl⟩ := (exists_mem_resolveInstance_iff_adds hset).mpr ⟨t, ht, hadds⟩
    exact ⟨r, hr, hs, hbody⟩

theorem Adds.mono {withOverriding withOverriding' : Bool} {t : String}
    (hopen : withOverriding → withOverriding') (h : x.Adds name args type withOverriding t m) :
    x.Adds name args type withOverriding' t m := by
  obtain ⟨r, hr, heq | ⟨hover, hrest⟩⟩ := h
  · exact ⟨r, hr, .inl heq⟩
  · exact ⟨r, hr, .inr ⟨hopen hover, hrest⟩⟩

theorem callsBody_mono {set' : ConstraintSet} (hset : set.isEmpty = false)
    (htypes : ∀ t ∈ set.types, t ∈ set'.types) (hopen : set.unresolved → set'.unresolved)
    (h : x.CallsBody name (.object set type) args s) :
    x.CallsBody name (.object set' type) args s := by
  obtain ⟨t, ht, m, hadds, hs, hbody⟩ := (callsBody_object_iff hset).mp h
  exact (callsBody_object_iff (isEmpty_eq_false (htypes t ht))).mpr
    ⟨t, htypes t ht, m, hadds.mono hopen, hs, hbody⟩

theorem callsBody_iff_exists_singleton (hset : set.isEmpty = false) :
    x.CallsBody name (.object set type) args s ↔
      ∃ t ∈ set.types, x.CallsBody name (.object ⟨{t}, set.unresolved⟩ type) args s := by
  have hsingle (t : String) : x.CallsBody name (.object ⟨{t}, set.unresolved⟩ type) args s ↔
      ∃ m, x.Adds name args type set.unresolved t m ∧ m.signature = s ∧ m.isAbstract = false := by
    have hmem : t ∈ (⟨{t}, set.unresolved⟩ : ConstraintSet).types :=
      Std.ExtTreeSet.mem_insert_self
    rw [callsBody_object_iff (isEmpty_eq_false hmem)]
    constructor
    · rintro ⟨u, hu, hadds⟩
      obtain rfl : u = t := by simpa using mem_insert_iff.mp hu
      exact hadds
    · intro hadds
      exact ⟨t, hmem, hadds⟩
  simp only [callsBody_object_iff hset, hsingle]

/-- What a call may run is strictly ordered by signatures, with abstract methods only among
themselves. Methods with a body are never lost when the set of runtime types grows, and a set has
those of its members. -/
theorem dispatch_distributes (x : TypeIndex) (name : String) (args : ArgTypes) :
    (∀ receiver,
      let found := x.resolve name receiver args
      found.Pairwise (fun r q => compare r.method.signature q.method.signature = .lt) ∧
      ((∃ r ∈ found, r.method.isAbstract = false) → ∀ q ∈ found, q.method.isAbstract = false)) ∧
    (∀ (type : Option StaticType) (s : Signature) (set set' : ConstraintSet),
      set.isEmpty = false → (∀ t ∈ set.types, t ∈ set'.types) →
      (set.unresolved → set'.unresolved) → x.CallsBody name (.object set type) args s →
        x.CallsBody name (.object set' type) args s) ∧
    (∀ (type : Option StaticType) (s : Signature) (set : ConstraintSet), set.isEmpty = false →
      (x.CallsBody name (.object set type) args s ↔
        ∃ t ∈ set.types, x.CallsBody name (.object ⟨{t}, set.unresolved⟩ type) args s)) := by
  refine ⟨fun receiver => ⟨Resolution.pairwise_finish _, ?_⟩, ?_, ?_⟩
  · rintro ⟨r, hr, hbody⟩ q hq
    exact Resolution.isAbstract_of_mem_finish hr hbody hq
  · intro type s set set' hset htypes hopen
    exact callsBody_mono hset htypes hopen
  · intro type s set hset
    exact callsBody_iff_exists_singleton hset

def implemented : CompilationUnit :=
  .plain [.plain "A" none [.withoutBody (.plain "f" [] "void" [])],
    .plain "B" (some "A") [.plain "f" [] "void" []],
    .plain "C" (some "A") [.plain "f" [] "void" []]]

def implementedIn (type : String) : Signature := ⟨type, "f", [], .void⟩

/-- The call on a `B` runs the method of `B`. So does the call on an `A` or a `B`, which then does
not run the abstract method of `A`; and the call on a `B` or a `C` runs both bodies. -/
theorem dispatch_distributes_implemented :
    ∃ p, Program.build [implemented] {} .degrade = .ok p ∧
      p.index.CallsBody "f" (.object ⟨{"p.A", "p.B"}, true⟩ none) [] (implementedIn "p.B") ∧
      (∀ q ∈ p.index.resolve "f" (.object ⟨{"p.A", "p.B"}, true⟩ none) [],
        q.method.isAbstract = false) ∧
      p.index.CallsBody "f" (.object ⟨{"p.B", "p.C"}, false⟩ none) [] (implementedIn "p.C") := by
  obtain ⟨p, hp, h⟩ := exists_ok_of_any (Program.build [implemented] {} .degrade)
    (fun p => decide ((∃ r ∈ p.index.resolve "f" (.object ⟨{"p.B"}, false⟩ none) [],
        r.method.signature = implementedIn "p.B" ∧ r.method.isAbstract = false) ∧
      ∃ r ∈ p.index.resolve "f" (.object ⟨{"p.C"}, false⟩ none) [],
        r.method.signature = implementedIn "p.C" ∧ r.method.isAbstract = false))
    (by decide +kernel)
  obtain ⟨hB, hC⟩ := of_decide_eq_true h
  obtain ⟨hlists, hmono, hunion⟩ := dispatch_distributes p.index "f" []
  have hAB : p.index.CallsBody "f" (.object ⟨{"p.A", "p.B"}, true⟩ none) []
      (implementedIn "p.B") :=
    hmono none _ ⟨{"p.B"}, false⟩ _ rfl (by simp) (by simp) hB
  refine ⟨p, hp, hAB, ?_, ?_⟩
  · obtain ⟨r, hr, -, hbody⟩ := hAB
    exact (hlists _).2 ⟨r, hr, hbody⟩
  · exact (hunion none _ ⟨{"p.B", "p.C"}, false⟩ rfl).mpr ⟨"p.C", by decide +kernel, hC⟩

end TypeIndex

end JavaCallGraph
