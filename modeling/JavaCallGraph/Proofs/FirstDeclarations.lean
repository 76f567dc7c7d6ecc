import JavaCallGraph.Proofs.InheritedMethods

/-!
# The first declaration of a method

A type may declare one signature twice. Inheriting keeps methods in their order, and what it leaves
out it leaves out for all methods of the signature. So the first dispatched method of a signature
that a type sees is the first one that the declaring type declares.
-/

namespace JavaCallGraph

namespace Method

variable {m : Method} {s : Signature}

def dispatches (m : Method) (s : Signature) : Bool := m.isDispatched && m.signature == s

theorem dispatches_iff : m.dispatches s ↔ m.isDispatched ∧ m.signature = s := by
  simp [dispatches]

theorem of_find?_dispatches {methods : List Method}
    (hm : methods.find? (·.dispatches s) = some m) : m.isDispatched ∧ m.signature = s :=
  dispatches_iff.mp (List.find?_some (p := fun n : Method => n.dispatches s) hm)

theorem not_isPrivate_of_isDispatched (hm : m.isDispatched) : ¬ m.isPrivate := by
  simp only [isDispatched, Bool.and_eq_true, Bool.not_eq_true'] at hm
  simp [hm.2]

theorem kind_of_isDispatched (hm : m.isDispatched) : m.kind = .virtual ∨ m.kind = .default := by
  simp only [isDispatched, Bool.and_eq_true, Bool.or_eq_true, beq_iff_eq] at hm
  exact hm.1

end Method

def Hierarchy.firstDeclared? (h : Hierarchy) (s : Signature) : Option Method :=
  (h.get? s.declaring).bind fun node => node.methods.find? (·.dispatches s)

/-! ### Lists that grow by steps -/

section Collects

variable {σ : Type} {s : Signature} {step : σ → Method → σ} {list : σ → List Method}
  {closed : σ → Prop} {methods : List Method} {i : σ}

/-- Each step is given a method, and adds it at the end of a list or does not. When it leaves out a
dispatched method of the signature, the list is closed to all of them. -/
structure Collects (s : Signature) (step : σ → Method → σ) (list : σ → List Method)
    (closed : σ → Prop) : Prop where
  grows : ∀ i m, list (step i m) = list i ∨ list (step i m) = list i ++ [m]
  closes : ∀ i m, m.dispatches s → list (step i m) = list i → closed (step i m)
  stays : ∀ i m, closed i → closed (step i m)
  keeps : ∀ i m, closed i → m.dispatches s → list (step i m) = list i

theorem Collects.find?_step (hc : Collects s step list closed) (m : Method)
    (hi : closed i ∨ ((list i).find? (·.dispatches s)).isSome ∨ m.dispatches s = false) :
    (list (step i m)).find? (·.dispatches s) = (list i).find? (·.dispatches s) := by
  rcases hc.grows i m with hsame | hadded
  · rw [hsame]
  · cases hm : m.dispatches s with
    | false => simp [hadded, hm]
    | true =>
      rcases hi with hclosed | hsome | hno
      · rw [hc.keeps i m hclosed hm]
      · rw [hadded, List.find?_append, Option.or_of_isSome hsome]
      · simp [hm] at hno

theorem Collects.find?_foldl_of_closed (hc : Collects s step list closed)
    (hi : closed i ∨ ((list i).find? (·.dispatches s)).isSome) :
    (list (methods.foldl step i)).find? (·.dispatches s) =
      (list i).find? (·.dispatches s) := by
  induction methods generalizing i with
  | nil => rfl
  | cons m methods ih =>
    have hstep := hc.find?_step m (hi.imp_right .inl)
    rw [List.foldl_cons, ih (hi.imp (hc.stays i m) fun hsome => by rwa [hstep]), hstep]

/-- What comes first in the list afterwards came first in it before, or among what was added. -/
theorem Collects.find?_foldl (hc : Collects s step list closed) (methods : List Method) (i : σ) :
    (list (methods.foldl step i)).find? (·.dispatches s) = (list i).find? (·.dispatches s) ∨
      (list (methods.foldl step i)).find? (·.dispatches s) = methods.find? (·.dispatches s) := by
  induction methods generalizing i with
  | nil => exact .inl rfl
  | cons m methods ih =>
    rw [List.foldl_cons]
    cases hm : m.dispatches s with
    | false =>
      have ih := ih (step i m)
      rw [hc.find?_step m (.inr (.inr hm))] at ih
      simpa [hm] using ih
    | true =>
      rcases hc.grows i m with hsame | hadded
      · rw [hc.find?_foldl_of_closed (.inl (hc.closes i m hm hsame)), hsame]
        exact .inl rfl
      · rw [hc.find?_foldl_of_closed (.inr (by simp [hadded, hm])), hadded, List.find?_append]
        cases (list i).find? (·.dispatches s) with
        | some k => exact .inl rfl
        | none => exact .inr (by simp [hm])

end Collects

namespace Hierarchy

variable {h : Hierarchy} {methods : List Method}

/-- Of every signature, the dispatched methods in the list begin with the first declaration. -/
def Leads (h : Hierarchy) (methods : List Method) : Prop :=
  ∀ s, ∀ m ∈ methods.find? (·.dispatches s), h.firstDeclared? s = some m

theorem find?_filter_dispatches {s : Signature} {keep : Method → Bool}
    (hkeep : ∀ n : Method, n.dispatches s → keep n) :
    (methods.filter keep).find? (·.dispatches s) = methods.find? (·.dispatches s) := by
  rw [List.find?_filter]
  congr 1
  funext n
  cases hn : n.dispatches s with
  | false => simp
  | true => simp [hkeep n hn]

theorem leads_nil : h.Leads [] := fun _ _ hm => by cases hm

theorem Leads.append {more : List Method} (hmethods : h.Leads methods) (hmore : h.Leads more) :
    h.Leads (methods ++ more) := by
  intro s m hm
  rw [List.find?_append] at hm
  rcases Option.or_eq_some_iff.mp hm with hm | ⟨-, hm⟩
  · exact hmethods s m hm
  · exact hmore s m hm

theorem Leads.flatMap {α : Type} {l : List α} {f : α → List Method}
    (hl : ∀ a ∈ l, h.Leads (f a)) : h.Leads (l.flatMap f) := by
  induction l with
  | nil => exact leads_nil
  | cons a l ih =>
    rw [List.flatMap_cons]
    exact (hl a List.mem_cons_self).append (ih fun b hb => hl b (List.mem_cons_of_mem a hb))

/-- Methods are left out by their signature. -/
theorem Leads.filter (hmethods : h.Leads methods) {keep : Method → Bool}
    (hkeep : ∀ m n : Method, m.isDispatched → n.isDispatched → m.signature = n.signature →
      keep m = keep n) : h.Leads (methods.filter keep) := by
  intro s m hm
  refine hmethods s m ?_
  have hfound := Method.of_find?_dispatches hm
  have hkept : keep m := (List.mem_filter.mp (List.mem_of_find?_eq_some hm)).2
  rwa [find?_filter_dispatches fun n hn => ?_] at hm
  rw [Method.dispatches_iff] at hn
  rwa [hkeep n m hn.1 hfound.1 (hn.2.trans hfound.2.symm)]

theorem Leads.foldl {σ : Type} {step : σ → Method → σ} {list : σ → List Method}
    {closed : Signature → σ → Prop} (hc : ∀ s, Collects s step list (closed s)) {i : σ}
    (hi : h.Leads (list i)) (hmethods : h.Leads methods) :
    h.Leads (list (methods.foldl step i)) := by
  intro s m hm
  rcases (hc s).find?_foldl methods i with hfirst | hfirst
  · exact hi s m (hfirst ▸ hm)
  · exact hmethods s m (hfirst ▸ hm)

end Hierarchy

/-! ### Inheriting -/

namespace Inheritance

theorem shadows_congr {m n : Method} (methods : List Method) (hsame : m.signature = n.signature) :
    shadows methods m = shadows methods n := by
  simp only [shadows, Method.sameShape, Method.name, hsame]

/-- Every method of the signature is hidden by a visible one. -/
def Hides (i : Inheritance) (s : Signature) : Prop :=
  ∀ m : Method, m.signature = s → shadows i.visible m

theorem hides_of_shadows {i : Inheritance} {m : Method} {s : Signature} (hm : m.signature = s)
    (hshadows : shadows i.visible m) : i.Hides s := fun n hn => by
  rwa [shadows_congr i.visible (hn.trans hm.symm)]

theorem hides_of_skipped {i : Inheritance} {m : Method} {s : Signature} (hm : m.isDispatched)
    (hs : m.signature = s) (hskip : m.isPrivate ∨ shadows i.visible m) : i.Hides s :=
  hides_of_shadows hs (hskip.resolve_left (Method.not_isPrivate_of_isDispatched hm))

theorem Hides.mono {i j : Inheritance} {s : Signature} (hi : i.Hides s)
    (hsub : ∀ v ∈ i.visible, v ∈ j.visible) : j.Hides s := fun m hm => by
  obtain ⟨v, hv, hshape⟩ := List.any_eq_true.mp (hi m hm)
  exact List.any_eq_true.mpr ⟨v, hsub v hv, hshape⟩

section Steps

variable (h : Hierarchy) (s : Signature) (i : Inheritance) (m : Method)

theorem visible_addFromClass : ∀ v ∈ i.visible, v ∈ (addFromClass h i m).visible := by
  intro v hv
  rcases addFromClass_cases h i m with ⟨-, hstep⟩ | ⟨-, -, -, hstep⟩ | ⟨-, -, -, hstep⟩ <;>
    simp [hstep, hv]

theorem visible_addFromInterface : (addFromInterface i m).visible = i.visible := by
  rcases addFromInterface_cases i m with ⟨-, hstep⟩ | ⟨-, -, -, hstep⟩ <;> rw [hstep]

end Steps

variable (h : Hierarchy) (s : Signature)

theorem collects_visible : Collects s (addFromClass h) visible
    fun i => i.Hides s ∨ h.isInterface s.declaring where
  grows i m := by
    rcases addFromClass_cases h i m with ⟨-, hstep⟩ | ⟨-, -, -, hstep⟩ | ⟨-, -, -, hstep⟩ <;>
      simp [hstep]
  closes i m hm hsame := by
    obtain ⟨hdispatched, rfl⟩ := Method.dispatches_iff.mp hm
    rcases addFromClass_cases h i m with ⟨hskip, hstep⟩ | ⟨-, -, hinterface, -⟩ | ⟨-, -, -, hstep⟩
    · rw [hstep]
      exact .inl (hides_of_skipped hdispatched rfl hskip)
    · exact .inr hinterface
    · simp [hstep] at hsame
  stays i m := Or.imp_left fun hi => hi.mono (visible_addFromClass h i m)
  keeps i m hclosed hm := by
    obtain ⟨-, rfl⟩ := Method.dispatches_iff.mp hm
    rcases addFromClass_cases h i m with ⟨-, hstep⟩ | ⟨-, -, -, hstep⟩ | ⟨-, hshadows, hclass, -⟩
    · rw [hstep]
    · rw [hstep]
    · exact (hclosed.elim (fun hi => hshadows (hi m rfl)) hclass).elim

theorem collects_candidates : Collects s (addFromClass h) candidates
    fun i => i.Hides s ∨ ¬ h.isInterface s.declaring where
  grows i m := by
    rcases addFromClass_cases h i m with ⟨-, hstep⟩ | ⟨-, -, -, hstep⟩ | ⟨-, -, -, hstep⟩ <;>
      simp [hstep]
  closes i m hm hsame := by
    obtain ⟨hdispatched, rfl⟩ := Method.dispatches_iff.mp hm
    rcases addFromClass_cases h i m with ⟨hskip, hstep⟩ | ⟨-, -, -, hstep⟩ | ⟨-, -, hclass, -⟩
    · rw [hstep]
      exact .inl (hides_of_skipped hdispatched rfl hskip)
    · simp [hstep] at hsame
    · exact .inr hclass
  stays i m := Or.imp_left fun hi => hi.mono (visible_addFromClass h i m)
  keeps i m hclosed hm := by
    obtain ⟨-, rfl⟩ := Method.dispatches_iff.mp hm
    rcases addFromClass_cases h i m with
      ⟨-, hstep⟩ | ⟨-, hshadows, hinterface, -⟩ | ⟨-, -, -, hstep⟩
    · rw [hstep]
    · exact (hclosed.elim (fun hi => hshadows (hi m rfl)) fun hclass => hclass hinterface).elim
    · rw [hstep]

theorem collects_fromInterface : Collects s addFromInterface candidates
    fun i => i.Hides s ∨ i.candidates.any (·.signature == s) where
  grows i m := by
    rcases addFromInterface_cases i m with ⟨-, hstep⟩ | ⟨-, -, -, hstep⟩ <;> simp [hstep]
  closes i m hm hsame := by
    obtain ⟨hdispatched, rfl⟩ := Method.dispatches_iff.mp hm
    rcases addFromInterface_cases i m with ⟨hskip, hstep⟩ | ⟨-, -, -, hstep⟩
    · rw [hstep]
      rcases hskip with hprivate | hstatic | hshadows | hsigned
      · exact (Method.not_isPrivate_of_isDispatched hdispatched hprivate).elim
      · simpa [hstatic] using Method.kind_of_isDispatched hdispatched
      · exact .inl (hides_of_shadows rfl hshadows)
      · exact .inr hsigned
    · simp [hstep] at hsame
  stays i m hclosed := by
    rcases hclosed with hi | hsigned
    · exact .inl (hi.mono fun v hv => by rwa [visible_addFromInterface])
    · right
      rcases addFromInterface_cases i m with ⟨-, hstep⟩ | ⟨-, -, -, hstep⟩
      · rwa [hstep]
      · rw [hstep, List.any_append, hsigned, Bool.true_or]
  keeps i m hclosed hm := by
    obtain ⟨-, rfl⟩ := Method.dispatches_iff.mp hm
    rcases addFromInterface_cases i m with ⟨-, hstep⟩ | ⟨-, hshadows, hsigned, -⟩
    · rw [hstep]
    · exact (hclosed.elim (fun hi => hshadows (hi m rfl)) hsigned).elim

theorem visible_foldl_addFromInterface (methods : List Method) (i : Inheritance) :
    (methods.foldl addFromInterface i).visible = i.visible := by
  induction methods generalizing i with
  | nil => rfl
  | cons m methods ih => rw [List.foldl_cons, ih, visible_addFromInterface]

end Inheritance

/-! ### Visible methods -/

theorem TypeNode.leads_declaredMethods {h : Hierarchy} (howns : h.OwnsMethods) {name : String}
    {node : TypeNode} (hnode : h.get? name = some node) : h.Leads node.declaredMethods := by
  intro s m hm
  have hfound : node.methods.find? (·.dispatches s) = some m := by
    rwa [declaredMethods, Hierarchy.find?_filter_dispatches fun k hk => ?_] at hm
    rcases Method.kind_of_isDispatched (Method.dispatches_iff.mp hk).1 with h | h <;> simp [h]
  have howned := howns name node hnode m (List.mem_of_find?_eq_some hfound)
  have hdeclaring : s.declaring = name := (Method.of_find?_dispatches hfound).2 ▸ howned.declaring
  rw [Hierarchy.firstDeclared?, hdeclaring, hnode]
  exact hfound

namespace MemberTable

variable {h : Hierarchy} {table : MemberTable}

def AllLead (h : Hierarchy) (table : MemberTable) : Prop :=
  ∀ type, h.Leads (table.get type).methods

theorem AllLead.inheritance (htable : table.AllLead h) {n : TypeNode}
    (hn : h.Leads n.declaredMethods) :
    h.Leads (table.inheritance h n).visible ∧ h.Leads (table.inheritance h n).candidates := by
  have hclass : h.Leads (n.superclass.toList.flatMap fun sup => (table.get sup).methods) :=
    .flatMap fun sup _ => htable sup
  have hinterfaces : h.Leads (n.interfaces.flatMap fun sup => (table.get sup).methods) :=
    .flatMap fun sup _ => htable sup
  rw [inheritance_eq]
  constructor
  · rw [Inheritance.visible_foldl_addFromInterface]
    exact .foldl (Inheritance.collects_visible h) hn hclass
  · refine .foldl Inheritance.collects_fromInterface (.filter ?_ ?_) hinterfaces
    · exact .foldl (Inheritance.collects_candidates h) Hierarchy.leads_nil hclass
    · intro m k _ _ hsame
      rw [Inheritance.shadows_congr _ hsame]

theorem AllLead.add (howns : h.OwnsMethods) (htable : table.AllLead h) (name : String) :
    (table.add h name).AllLead h := by
  unfold MemberTable.add
  split
  · next node hnode =>
    obtain ⟨hvisible, hcandidates⟩ :=
      htable.inheritance (TypeNode.leads_declaredMethods howns hnode)
    intro type
    rw [MemberTable.get, Std.ExtTreeMap.getElem?_insert]
    split
    · refine hvisible.append (hcandidates.filter fun m k _ _ hsame => ?_)
      simp only [Inheritance.isMasked, Method.sameShape, Method.name, Method.declaring, hsame]
    · exact htable type
  · exact htable

theorem allLead_build (howns : h.OwnsMethods) (roots : List String) : (build h roots).AllLead h :=
  List.foldlRecOn _ _ (fun type => by simpa [MemberTable.get] using Hierarchy.leads_nil)
    fun _ htable name _ => htable.add howns name

end MemberTable

namespace Catalog

variable {c : Catalog} {h : Hierarchy} {m k : Method}

theorem collects_addOverrider (s : Signature) :
    Collects s addOverrider id fun found => found.any (·.signature == s) where
  grows found m := by
    unfold addOverrider
    split <;> simp
  closes found m hm hsame := by
    obtain ⟨-, rfl⟩ := Method.dispatches_iff.mp hm
    unfold addOverrider at hsame ⊢
    split
    · assumption
    · simp_all
  stays found m hclosed := by
    unfold addOverrider
    split
    · exact hclosed
    · simp [hclosed]
  keeps found m hclosed hm := by
    obtain ⟨-, rfl⟩ := Method.dispatches_iff.mp hm
    rw [addOverrider, if_pos hclosed]

def SignedOnce (methods : List Method) : Prop :=
  ∀ m ∈ methods, ∀ n ∈ methods, m.signature = n.signature → m = n

theorem signedOnce_overriders : SignedOnce (c.overriders h m) := by
  have hnil : SignedOnce [] := by simp [SignedOnce]
  refine List.foldlRecOn (motive := SignedOnce) _ _ hnil fun found hfound k _ => ?_
  unfold addOverrider
  split
  · exact hfound
  · next hnew =>
    simp only [List.any_eq_true, beq_iff_eq, not_exists, not_and] at hnew
    intro m hm n hn hsame
    rcases List.mem_append.mp hm with hm | hm <;> rcases List.mem_append.mp hn with hn | hn
    · exact hfound m hm n hn hsame
    · exact (hnew m hm (List.mem_singleton.mp hn ▸ hsame)).elim
    · exact (hnew n hn (List.mem_singleton.mp hm ▸ hsame.symm)).elim
    · rw [List.mem_singleton.mp hm, List.mem_singleton.mp hn]

theorem isDispatched_of_mem_overriders (hk : k ∈ c.overriders h m) : k.isDispatched := by
  rcases mem_foldl_addOverrider hk with hnil | hmem
  · cases hnil
  · obtain ⟨sub, -, hvisible⟩ := List.mem_flatMap.mp hmem
    have hboth := (List.mem_filter.mp hvisible).2
    rw [Bool.and_eq_true] at hboth
    exact hboth.1

theorem firstDeclared?_of_mem_overriders (hc : ∀ type, h.Leads (c.membersOf type).methods)
    (hk : k ∈ c.overriders h m) : h.firstDeclared? k.signature = some k := by
  have hvisible : h.Leads ((h.descendants m.declaring).toList.flatMap fun sub =>
      (c.membersOf sub).methods.filter fun n => n.isDispatched && n.sameShape m) := by
    refine .flatMap fun sub _ => (hc sub).filter fun n n' hn hn' hsame => ?_
    simp only [hn, hn', Method.sameShape, Method.name, hsame]
  have hleads : h.Leads (c.overriders h m) :=
    .foldl collects_addOverrider Hierarchy.leads_nil hvisible
  obtain ⟨first, hfirst⟩ : ∃ first,
      (c.overriders h m).find? (·.dispatches k.signature) = some first := by
    rw [← Option.isSome_iff_exists, List.find?_isSome]
    exact ⟨k, hk, Method.dispatches_iff.mpr ⟨isDispatched_of_mem_overriders hk, rfl⟩⟩
  have heq : first = k := signedOnce_overriders first (List.mem_of_find?_eq_some hfirst) k hk
    (Method.of_find?_dispatches hfirst).2
  exact hleads k.signature k (heq ▸ hfirst)

end Catalog

/-- An overriding method is the first declaration of its signature. -/
theorem Program.firstDeclared?_of_mem_overriders {units : List CompilationUnit} {library : Library}
    {policy : CyclePolicy} {p : Program} {m k : Method} (hb : build units library policy = .ok p)
    (hk : k ∈ p.catalog.overriders p.hierarchy m) :
    p.hierarchy.firstDeclared? k.signature = some k := by
  refine Catalog.firstDeclared?_of_mem_overriders (fun type => ?_) hk
  rw [catalog_of_build hb]
  exact MemberTable.allLead_build (ownsMethods_of_build hb) p.hierarchy.nodes.keys type

end JavaCallGraph
