import JavaCallGraph.Proofs.VirtualDispatch

/-!
# Dispatch finds listed methods only

The catalog lists the constructors and the visible methods of every type. Whatever a call site or
a method reference resolves to is among them, and the catalog finds each of them by its signature.
-/

namespace JavaCallGraph

namespace MemberTable

theorem getElem?_bySignature (table : MemberTable) (types : List String) (s : Signature) :
    (table.bySignature types)[s]? = (types.flatMap fun type =>
      (table.get type).constructors ++ (table.get type).methods).find? (·.signature = s) := by
  rw [bySignature, getElem?_foldl_insertIfNew Method.signature fun m => m]
  simp

theorem mem_nodes_of_mem_build {h : Hierarchy} {roots : List String} {type : String}
    (htype : type ∈ build h roots) : type ∈ h.nodes := by
  suffices hfold : ∀ (names : List String) (table : MemberTable),
      (∀ name ∈ table, name ∈ h.nodes) → ∀ name ∈ names.foldl (add h) table, name ∈ h.nodes from
    hfold _ ∅ (by simp) type htype
  intro names
  induction names with
  | nil => exact fun table htable => htable
  | cons first names ih =>
    refine fun table htable => ih _ fun name hname => ?_
    unfold add at hname
    split at hname
    · next node hnode =>
      rcases Std.ExtTreeMap.mem_insert.mp hname with hname | hname
      · obtain rfl := Std.LawfulEqCmp.eq_of_compare hname
        exact Std.ExtTreeMap.mem_iff_isSome_getElem?.mpr (by simp_all [Hierarchy.get?])
      · exact htable name hname
    · exact htable name hname

end MemberTable

namespace Catalog

variable {c : Catalog} {h : Hierarchy} {m : Method}

/-- Some type has the method among its constructors and visible methods. -/
def Lists (c : Catalog) (m : Method) : Prop :=
  ∃ type, m ∈ c.constructors type ∨ m ∈ (c.membersOf type).methods

theorem lists_of_mem_methodsNamed {type name : String} (hm : m ∈ c.methodsNamed type name) :
    c.Lists m := ⟨type, .inr (List.mem_filter.mp hm).1⟩

theorem lists_of_mem_overriders {n : Method} (hn : n ∈ c.overriders h m) : c.Lists n := by
  obtain ⟨sub, -, hmem⟩ := of_mem_overriders hn
  exact ⟨sub, .inr hmem⟩

theorem isSome_method?_of_lists (hm : (build h).Lists m) :
    ((build h).method? m.signature).isSome := by
  obtain ⟨type, hmem⟩ := hm
  have htype : type ∈ (build h).members := by
    by_contra hnone
    simp [constructors, membersOf, MemberTable.get, Std.ExtTreeMap.getElem?_eq_none hnone] at hmem
  have hlisted : type ∈ h.nodes.keys :=
    Std.ExtTreeMap.mem_keys.mpr (MemberTable.mem_nodes_of_mem_build htype)
  rw [method?, build, buildFrom, MemberTable.getElem?_bySignature, List.find?_isSome]
  exact ⟨m, List.mem_flatMap.mpr ⟨type, hlisted, List.mem_append.mpr hmem⟩, by simp⟩

end Catalog

theorem Overload.mem_of_mem_select {h : Hierarchy} {candidates : List Method} {args : ArgTypes}
    {view : StaticType} {r : Resolution} (hr : r ∈ select h candidates args view) :
    r.method ∈ candidates := (exists_mem_select.mp ⟨r, hr, rfl⟩).mem

namespace TypeIndex

variable {x : TypeIndex} {name : String} {args : ArgTypes} {s : Signature}

def Knows (x : TypeIndex) (s : Signature) : Prop := ∃ m, x.catalog.Lists m ∧ m.signature = s

theorem knows_of_mem_finish {found : List Resolution}
    (hfound : ∀ r ∈ found, x.catalog.Lists r.method) :
    ∀ r ∈ Resolution.finish found, x.Knows r.method.signature := by
  intro r hr
  obtain ⟨q, hq, hs, -⟩ := Resolution.exists_mem_finish.mp ⟨r, hr, rfl⟩
  exact ⟨q.method, hfound q hq, hs⟩

theorem lists_completeFor {set : ConstraintSet} {found : List Resolution}
    (hfound : ∀ r ∈ found, x.catalog.Lists r.method) :
    ∀ r ∈ x.completeFor set found, x.catalog.Lists r.method := by
  intro r hr
  rcases exists_mem_completeFor.mp ⟨r, hr, rfl⟩ with ⟨q, hq, heq⟩ | ⟨-, q, -, -, hover⟩
  · exact heq ▸ hfound q hq
  · exact Catalog.lists_of_mem_overriders hover

theorem lists_candidates {runtime : String} {m : Method} (hm : m ∈ x.candidates runtime name) :
    x.catalog.Lists m := by
  unfold candidates at hm
  dsimp only at hm
  split at hm
  · exact Catalog.lists_of_mem_methodsNamed hm
  · exact Catalog.lists_of_mem_methodsNamed hm

theorem lists_resolveConstructor {type : String} :
    ∀ r ∈ x.resolveConstructor type args, x.catalog.Lists r.method := by
  intro r hr
  have hselect {t : String} {view : StaticType}
      (h : r ∈ Overload.select x.hierarchy (x.catalog.constructors t) args view) :
      x.catalog.Lists r.method := ⟨t, .inl (Overload.mem_of_mem_select h)⟩
  unfold resolveConstructor at hr
  dsimp only at hr
  split at hr
  · split at hr
    · rcases List.mem_append.mp hr with hown | hsuper
      · obtain ⟨m, hm, rfl⟩ := List.mem_map.mp hown
        exact ⟨type, .inl hm⟩
      · split at hsuper
        · exact hselect hsuper
        · simp at hsuper
    · exact hselect hr
  · exact hselect hr

theorem lists_resolveInstance {set : ConstraintSet} {type : Option StaticType} :
    ∀ r ∈ x.resolveInstance name args set type, x.catalog.Lists r.method := by
  unfold resolveInstance
  split
  · simp
  · apply lists_completeFor
    intro r hr
    obtain ⟨runtime, -, hr⟩ := List.mem_flatMap.mp hr
    exact lists_candidates (Overload.mem_of_mem_select hr)

theorem knows_of_mem_resolve {receiver : SiteReceiver} :
    ∀ r ∈ x.resolve name receiver args, x.Knows r.method.signature := by
  have hselect {t : String} {view : StaticType} : ∀ r ∈ Overload.select x.hierarchy
      (x.catalog.methodsNamed t name) args view, x.catalog.Lists r.method :=
    fun r hr => Catalog.lists_of_mem_methodsNamed (Overload.mem_of_mem_select hr)
  unfold resolve
  apply knows_of_mem_finish
  cases receiver with
  | object set type => exact lists_resolveInstance
  | super type =>
    dsimp only
    split
    · exact hselect
    · simp
  | static type => exact hselect
  | constructor type => exact lists_resolveConstructor

theorem knows_of_mem_resolveReference {receiver : SiteReceiver} :
    ∀ r ∈ x.resolveReference name receiver, x.Knows r.method.signature := by
  have hunbound {t : String} : ∀ r ∈ (x.catalog.methodsNamed t name).map (⟨·, ∅⟩ : Method →
      Resolution), x.catalog.Lists r.method := by
    intro r hr
    obtain ⟨m, hm, rfl⟩ := List.mem_map.mp hr
    exact Catalog.lists_of_mem_methodsNamed hm
  unfold resolveReference
  apply knows_of_mem_finish
  cases receiver with
  | object set type =>
    dsimp only
    split
    · simp
    · apply lists_completeFor
      intro r hr
      obtain ⟨runtime, -, hr⟩ := List.mem_flatMap.mp hr
      exact hunbound r hr
  | super type =>
    dsimp only
    split
    · exact hunbound
    · simp
  | static type => exact hunbound
  | constructor type =>
    intro r hr
    obtain ⟨m, hm, rfl⟩ := List.mem_map.mp hr
    exact ⟨type, .inl hm⟩

end TypeIndex

end JavaCallGraph
