import JavaCallGraph.Proofs.InheritedMethods
import JavaCallGraph.Proofs.RecordedMembers

/-!
# Which methods hide one another

A type takes methods over from its superclass and from its superinterfaces, and leaves out what a
method of the same shape hides. So of two visible methods of one shape neither is declared below
the other. Where superinterfaces are interfaces, two such methods of different types both stem from
interfaces.
-/

namespace JavaCallGraph

namespace Inheritance

variable {h : Hierarchy} {own seen more visible : List Method} {i : Inheritance} {m n : Method}

theorem shadows_iff {methods : List Method} :
    shadows methods m ↔ ∃ n ∈ methods, n.sameShape m := by
  simp [shadows]

/-! ### Methods of the superclass -/

/-- The visible methods of a type that declares `own` and whose superclass sees `seen`. -/
structure Takes (own seen visible : List Method) : Prop where
  keepsOwn : ∀ m ∈ own, m ∈ visible
  source : ∀ m ∈ visible, m ∈ own ∨ m ∈ seen ∧ ¬ m.isPrivate
  apart : ∀ m ∈ visible, ∀ n ∈ visible, m.sameShape n → m = n ∨ m ∈ own ∧ n ∈ own

structure FromClass (h : Hierarchy) (own seen : List Method) (i : Inheritance) : Prop where
  takes : Takes own seen i.visible
  candidates : ∀ m ∈ i.candidates, m ∈ seen ∧ ¬ m.isPrivate ∧ h.isInterface m.declaring
  kept : ∀ m ∈ seen, ¬ m.isPrivate → shadows i.visible m ∨ m ∈ i.candidates

theorem Takes.mono (ht : Takes own seen visible) (m : Method) :
    Takes own (seen ++ [m]) visible where
  keepsOwn := ht.keepsOwn
  source n hn := (ht.source n hn).imp_right fun hseen => ⟨List.mem_append_left _ hseen.1, hseen.2⟩
  apart := ht.apart

theorem Takes.append (ht : Takes own seen visible) (hpublic : ¬ m.isPrivate)
    (hshadows : ¬ shadows visible m) : Takes own (seen ++ [m]) (visible ++ [m]) where
  keepsOwn n hn := List.mem_append_left _ (ht.keepsOwn n hn)
  source n hn := by
    rcases List.mem_append.mp hn with hn | hn
    · exact (ht.mono m).source n hn
    · exact .inr ⟨List.mem_append_right _ hn, List.mem_singleton.mp hn ▸ hpublic⟩
  apart n hn k hk hshape := by
    have hnew {v : Method} (hv : v ∈ visible) : ¬ v.sameShape m := fun hvm =>
      hshadows (shadows_iff.mpr ⟨v, hv, hvm⟩)
    rcases List.mem_append.mp hn with hn | hn <;> rcases List.mem_append.mp hk with hk | hk
    · exact ht.apart n hn k hk hshape
    · exact (hnew hn (List.mem_singleton.mp hk ▸ hshape)).elim
    · rw [Method.sameShape_comm, List.mem_singleton.mp hn] at hshape
      exact (hnew hk hshape).elim
    · exact .inl ((List.mem_singleton.mp hn).trans (List.mem_singleton.mp hk).symm)

theorem FromClass.step (hi : FromClass h own seen i) (m : Method) :
    FromClass h own (seen ++ [m]) (addFromClass h i m) := by
  have hcandidates : ∀ c ∈ i.candidates,
      c ∈ seen ++ [m] ∧ ¬ c.isPrivate ∧ h.isInterface c.declaring := fun c hc =>
    ⟨List.mem_append_left _ (hi.candidates c hc).1, (hi.candidates c hc).2⟩
  rcases addFromClass_cases h i m with ⟨hskip, hstep⟩ | ⟨hpublic, -, hinterface, hstep⟩ |
    ⟨hpublic, hshadows, -, hstep⟩
  · rw [hstep]
    refine ⟨hi.takes.mono m, hcandidates, fun n hn hn' => ?_⟩
    rcases List.mem_append.mp hn with hn | hn
    · exact hi.kept n hn hn'
    · rw [List.mem_singleton.mp hn] at hn' ⊢
      exact .inl (hskip.resolve_left hn')
  · rw [hstep]
    refine ⟨hi.takes.mono m, fun c hc => ?_, fun n hn hn' => ?_⟩
    · rcases List.mem_append.mp hc with hc | hc
      · exact hcandidates c hc
      · rw [List.mem_singleton.mp hc]
        exact ⟨by simp, hpublic, hinterface⟩
    · rcases List.mem_append.mp hn with hn | hn
      · exact (hi.kept n hn hn').imp_right (List.mem_append_left _)
      · exact .inr (List.mem_append_right _ hn)
  · rw [hstep]
    refine ⟨hi.takes.append hpublic hshadows, hcandidates, fun n hn hn' => ?_⟩
    simp only [shadows_iff, List.mem_append]
    rcases List.mem_append.mp hn with hn | hn
    · rcases hi.kept n hn hn' with hold | hcandidate
      · obtain ⟨k, hk, hshape⟩ := shadows_iff.mp hold
        exact .inl ⟨k, .inl hk, hshape⟩
      · exact .inr hcandidate
    · exact .inl ⟨n, .inr hn, Method.sameShape_of_signature_eq rfl⟩

theorem fromClass_foldl (h : Hierarchy) (own seen : List Method) :
    FromClass h own seen (seen.foldl (addFromClass h) { visible := own }) := by
  induction seen using List.reverseRecOn with
  | nil =>
    have htakes : Takes own [] own :=
      ⟨fun m hm => hm, fun m hm => .inl hm, fun m hm n hn _ => .inr ⟨hm, hn⟩⟩
    exact ⟨htakes, by simp, by simp⟩
  | append_singleton seen m ih =>
    rw [List.foldl_append]
    exact ih.step m

/-! ### Methods of the superinterfaces -/

structure Inherits (h : Hierarchy) (own seen more : List Method) (i : Inheritance) : Prop where
  takes : Takes own seen i.visible
  candidates : ∀ m ∈ i.candidates, ¬ m.isPrivate ∧ ¬ shadows i.visible m ∧
    (m ∈ seen ∧ h.isInterface m.declaring ∨ m ∈ more)
  keptSeen : ∀ m ∈ seen, ¬ m.isPrivate → shadows i.visible m ∨ m ∈ i.candidates
  keptMore : ∀ m ∈ more, ¬ m.isPrivate → m.kind ≠ .static →
    shadows i.visible m ∨ ∃ c ∈ i.candidates, c.signature = m.signature

theorem mem_candidates_settle :
    m ∈ i.settle.candidates ↔ m ∈ i.candidates ∧ ¬ shadows i.visible m := by
  simp [settle]

theorem FromClass.settle (hi : FromClass h own seen i) : Inherits h own seen [] i.settle where
  takes := hi.takes
  candidates m hm := by
    obtain ⟨hcandidate, hshadows⟩ := mem_candidates_settle.mp hm
    obtain ⟨hseen, hpublic, hinterface⟩ := hi.candidates m hcandidate
    exact ⟨hpublic, hshadows, .inl ⟨hseen, hinterface⟩⟩
  keptSeen m hm hpublic := by
    rcases hi.kept m hm hpublic with hshadows | hcandidate
    · exact .inl hshadows
    · by_cases hshadows : shadows i.visible m
      · exact .inl hshadows
      · exact .inr (mem_candidates_settle.mpr ⟨hcandidate, hshadows⟩)
  keptMore m hm := by cases hm

theorem Inherits.step (hi : Inherits h own seen more i) (m : Method) :
    Inherits h own seen (more ++ [m]) (addFromInterface i m) := by
  have hcandidates : ∀ c ∈ i.candidates, ¬ c.isPrivate ∧ ¬ shadows i.visible c ∧
      (c ∈ seen ∧ h.isInterface c.declaring ∨ c ∈ more ++ [m]) := by
    intro c hc
    obtain ⟨hpublic, hshadows, hfrom⟩ := hi.candidates c hc
    exact ⟨hpublic, hshadows, hfrom.imp_right (List.mem_append_left _)⟩
  rcases addFromInterface_cases i m with ⟨hskip, hstep⟩ | ⟨hpublic, hshadows, -, hstep⟩
  · rw [hstep]
    refine ⟨hi.takes, hcandidates, hi.keptSeen, fun n hn hn' hstatic => ?_⟩
    rcases List.mem_append.mp hn with hn | hn
    · exact hi.keptMore n hn hn' hstatic
    · rw [List.mem_singleton.mp hn] at hn' hstatic ⊢
      refine ((hskip.resolve_left hn').resolve_left hstatic).imp_right fun hsigned => ?_
      simpa using hsigned
  · rw [hstep]
    refine ⟨hi.takes, fun c hc => ?_, fun n hn hn' => ?_, fun n hn hn' hstatic => ?_⟩
    · rcases List.mem_append.mp hc with hc | hc
      · exact hcandidates c hc
      · rw [List.mem_singleton.mp hc]
        exact ⟨hpublic, hshadows, .inr (by simp)⟩
    · exact (hi.keptSeen n hn hn').imp_right (List.mem_append_left _)
    · rcases List.mem_append.mp hn with hn | hn
      · rcases hi.keptMore n hn hn' hstatic with hold | ⟨c, hc, hsame⟩
        · exact .inl hold
        · exact .inr ⟨c, List.mem_append_left _ hc, hsame⟩
      · exact .inr ⟨n, List.mem_append_right _ hn, rfl⟩

theorem Inherits.foldl (hi : Inherits h own seen [] i) (more : List Method) :
    Inherits h own seen more (more.foldl addFromInterface i) := by
  induction more using List.reverseRecOn with
  | nil => exact hi
  | append_singleton more m ih =>
    rw [List.foldl_append]
    exact ih.step m

/-! ### What is visible in the end -/

theorem mem_survivors : m ∈ i.survivors h ↔ m ∈ i.candidates ∧ ¬ isMasked h i.candidates m := by
  simp [survivors]

theorem isMasked_iff {candidates : List Method} : isMasked h candidates m ↔ ∃ n ∈ candidates,
    n.signature ≠ m.signature ∧ n.sameShape m ∧ n.declaring ≠ m.declaring ∧
      h.isSubtype n.declaring m.declaring := by
  simp [isMasked, and_assoc]

theorem Inherits.not_sameShape_of_mem_survivors (hi : Inherits h own seen more i)
    (hm : m ∈ i.visible) (hn : n ∈ i.survivors h) : ¬ m.sameShape n := fun hshape =>
  (hi.candidates n (mem_survivors.mp hn).1).2.1 (shadows_iff.mpr ⟨m, hm, hshape⟩)

/-- Two visible methods of one shape are both declared by the type, or are both survivors. -/
theorem Inherits.of_sameShape (hi : Inherits h own seen more i)
    (hm : m ∈ i.visible ++ i.survivors h) (hn : n ∈ i.visible ++ i.survivors h)
    (hshape : m.sameShape n) (hsignature : m.signature ≠ n.signature) :
    m ∈ own ∧ n ∈ own ∨ m ∈ i.survivors h ∧ n ∈ i.survivors h := by
  rcases List.mem_append.mp hm with hm | hm <;> rcases List.mem_append.mp hn with hn | hn
  · refine .inl ((hi.takes.apart m hm n hn hshape).resolve_left ?_)
    rintro rfl
    exact hsignature rfl
  · exact (hi.not_sameShape_of_mem_survivors hm hn hshape).elim
  · rw [Method.sameShape_comm] at hshape
    exact (hi.not_sameShape_of_mem_survivors hn hm hshape).elim
  · exact .inr ⟨hm, hn⟩

theorem not_isSubtype_of_mem_survivors (hm : m ∈ i.survivors h) (hn : n ∈ i.survivors h)
    (hshape : m.sameShape n) (hdeclaring : m.declaring ≠ n.declaring) :
    ¬ h.isSubtype m.declaring n.declaring := by
  intro hsub
  refine (mem_survivors.mp hn).2 (isMasked_iff.mpr ⟨m, (mem_survivors.mp hm).1, ?_⟩)
  exact ⟨fun hsame => hdeclaring (congrArg Signature.declaring hsame), hshape, hdeclaring, hsub⟩

/-- A method that could be taken over is hidden by one of its shape only. -/
theorem Inherits.exists_sameShape (hi : Inherits h own seen more i) (hpublic : ¬ m.isPrivate)
    (hm : m ∈ seen ∨ m ∈ more ∧ m.kind ≠ .static) :
    (∃ n ∈ i.visible ++ i.survivors h, n.sameShape m) ∨
      ∃ n, (n ∈ seen ∨ n ∈ more) ∧ n.sameShape m ∧ n.declaring ≠ m.declaring ∧
        h.isSubtype n.declaring m.declaring := by
  have hkept : shadows i.visible m ∨ ∃ c ∈ i.candidates, c.signature = m.signature := by
    rcases hm with hm | ⟨hm, hstatic⟩
    · exact (hi.keptSeen m hm hpublic).imp_right fun hc => ⟨m, hc, rfl⟩
    · exact hi.keptMore m hm hpublic hstatic
  rcases hkept with hshadows | ⟨c, hc, hsame⟩
  · obtain ⟨n, hn, hshape⟩ := shadows_iff.mp hshadows
    exact .inl ⟨n, List.mem_append_left _ hn, hshape⟩
  by_cases hmasked : isMasked h i.candidates c
  · obtain ⟨n, hn, -, hshape, hdeclaring, hsub⟩ := isMasked_iff.mp hmasked
    refine .inr ⟨n, (hi.candidates n hn).2.2.imp_left And.left, ?_⟩
    simp only [Method.sameShape, Method.name, Method.declaring, hsame] at hshape hdeclaring hsub ⊢
    exact ⟨hshape, hdeclaring, hsub⟩
  · exact .inl ⟨c, List.mem_append_right _ (mem_survivors.mpr ⟨hc, hmasked⟩),
      Method.sameShape_of_signature_eq hsame⟩

end Inheritance

theorem MemberTable.inherits_inheritance (h : Hierarchy) (table : MemberTable) (n : TypeNode) :
    (table.inheritance h n).Inherits h n.declaredMethods
      (n.superclass.toList.flatMap fun sup => (table.get sup).methods)
      (n.interfaces.flatMap fun sup => (table.get sup).methods) := by
  rw [inheritance_eq]
  exact (Inheritance.fromClass_foldl h _ _).settle.foldl _

/-! ### Superinterfaces -/

def TypeNode.IsDangling (n : TypeNode) : Prop :=
  n.origin = .dangling ∧ n.methods = [] ∧ n.supertypes = []

instance (n : TypeNode) : Decidable n.IsDangling := inferInstanceAs (Decidable (_ ∧ _))

namespace Hierarchy

variable {h : Hierarchy} {sub sup : String} {m : Method}

def ListsInterface (h : Hierarchy) (sup : String) : Prop :=
  ∃ name node, h.get? name = some node ∧ sup ∈ node.interfaces

/-- What is listed as a superinterface is an interface without a superclass, or declared nowhere. -/
def ProperInterfaces (h : Hierarchy) : Prop :=
  ∀ sup listed, h.ListsInterface sup → h.get? sup = some listed →
    listed.isInterface ∧ listed.superclass = none ∨ listed.IsDangling

theorem forall_get?_iff (holds : String → TypeNode → Prop) :
    (∀ name node, h.get? name = some node → holds name node) ↔
      ∀ entry ∈ h.nodes.toList, holds entry.1 entry.2 := by
  simp [Std.ExtTreeMap.mem_toList_iff_getElem?_eq_some, get?]

instance (h : Hierarchy) : Decidable h.NamesOwners := decidable_of_iff' _ (forall_get?_iff _)

theorem properInterfaces_iff : h.ProperInterfaces ↔
    ∀ entry ∈ h.nodes.toList, ∀ sup ∈ entry.2.interfaces, ∀ listed ∈ h.get? sup,
      listed.isInterface ∧ listed.superclass = none ∨ listed.IsDangling := by
  refine Iff.trans ⟨fun hproper name node hnode sup hsup listed => ?_, fun hall sup listed => ?_⟩
    (forall_get?_iff fun _ node => ∀ sup ∈ node.interfaces, ∀ listed ∈ h.get? sup,
      listed.isInterface ∧ listed.superclass = none ∨ listed.IsDangling)
  · exact hproper sup listed ⟨name, node, hnode, hsup⟩
  · rintro ⟨name, node, hnode, hsup⟩
    exact hall name node hnode sup hsup listed

instance (h : Hierarchy) : Decidable h.ProperInterfaces := decidable_of_iff' _ properInterfaces_iff

theorem ProperInterfaces.listsInterface (hproper : h.ProperInterfaces) (hsub : h.ListsInterface sub)
    (hreaches : Relation.ReflTransGen h.nodes.Extends sub sup) : h.ListsInterface sup := by
  induction hreaches with
  | refl => exact hsub
  | tail _ hext ih =>
    obtain ⟨node, hnode, hsup⟩ := TypeTable.extends_iff.mp hext
    rcases hproper _ node ih hnode with ⟨-, hclass⟩ | ⟨-, -, hnone⟩
    · exact ⟨_, node, hnode, by simpa [TypeNode.supertypes, hclass] using hsup⟩
    · simp [hnone] at hsup

theorem ProperInterfaces.isInterface (hproper : h.ProperInterfaces) (hsup : h.ListsInterface sup)
    (hsees : h.Sees sup m) : h.isInterface m.declaring := by
  obtain ⟨node, hnode, hdeclared⟩ := hsees.declares
  rcases hproper _ node (hproper.listsInterface hsup hsees.reaches) hnode with
    ⟨hinterface, -⟩ | ⟨-, hnone, -⟩
  · rw [Hierarchy.isInterface, hnode]
    exact hinterface
  · simp [hnone] at hdeclared

end Hierarchy

namespace Catalog

variable {nodes : List TypeNode} {policy : CyclePolicy} {h : Hierarchy} {type : String}
  {node : TypeNode} {m n : Method}

theorem methods_eq (hb : Hierarchy.build nodes policy = .ok h)
    (hnode : h.get? type = some node) :
    ((build h).membersOf type).methods =
      ((build h).members.inheritance h node).visible ++
        ((build h).members.inheritance h node).survivors h := by
  rw [membersOf_eq hb hnode]
  rfl

theorem declaring_of_mem_declaredMethods (hnames : h.NamesOwners) (hnode : h.get? type = some node)
    (hm : m ∈ node.declaredMethods) : m.declaring = type :=
  hnames type node hnode m (List.mem_filter.mp hm).1

theorem not_isPrivate_of_mem_methods (hb : Hierarchy.build nodes policy = .ok h)
    (hnames : h.NamesOwners) (hm : m ∈ ((build h).membersOf type).methods)
    (hdeclaring : m.declaring ≠ type) : ¬ m.isPrivate := by
  obtain ⟨node, hnode⟩ := exists_node_of_mem_methods hb hm
  have hi := (build h).members.inherits_inheritance h node
  rw [methods_eq hb hnode] at hm
  rcases List.mem_append.mp hm with hm | hm
  · rcases hi.takes.source m hm with hown | hseen
    · exact (hdeclaring (declaring_of_mem_declaredMethods hnames hnode hown)).elim
    · exact hseen.2
  · exact (hi.candidates m (Inheritance.mem_survivors.mp hm).1).1

/-- Two visible methods of one shape stem from one type, or are left of what interfaces offer. -/
theorem mem_survivors_of_sameShape (hb : Hierarchy.build nodes policy = .ok h)
    (hnames : h.NamesOwners) (hnode : h.get? type = some node)
    (hm : m ∈ ((build h).membersOf type).methods) (hn : n ∈ ((build h).membersOf type).methods)
    (hshape : m.sameShape n) (hdeclaring : m.declaring ≠ n.declaring) :
    m ∈ ((build h).members.inheritance h node).survivors h ∧
      n ∈ ((build h).members.inheritance h node).survivors h := by
  have hi := (build h).members.inherits_inheritance h node
  rw [methods_eq hb hnode] at hm hn
  refine (hi.of_sameShape hm hn hshape fun hsame => ?_).resolve_left ?_
  · exact hdeclaring (congrArg Signature.declaring hsame)
  · rintro ⟨hown, hown'⟩
    exact hdeclaring ((declaring_of_mem_declaredMethods hnames hnode hown).trans
      (declaring_of_mem_declaredMethods hnames hnode hown').symm)

theorem isInterface_of_mem_survivors (hproper : h.ProperInterfaces) (hnames : h.NamesOwners)
    (hnode : h.get? type = some node)
    (hm : m ∈ ((build h).members.inheritance h node).survivors h) :
    h.isInterface m.declaring := by
  have hi := (build h).members.inherits_inheritance h node
  rcases (hi.candidates m (Inheritance.mem_survivors.mp hm).1).2.2 with hseen | hmore
  · exact hseen.2
  · obtain ⟨sup, hsup, hsees⟩ := List.mem_flatMap.mp hmore
    exact hproper.isInterface ⟨type, node, hnode, hsup⟩ (sees_of_mem_methods hnames hsees)

theorem exists_sameShape_of_mem_supertype (hb : Hierarchy.build nodes policy = .ok h)
    (hnode : h.get? type = some node) {sup : String} (hsup : sup ∈ node.supertypes)
    (hm : m ∈ ((build h).membersOf sup).methods) (hpublic : ¬ m.isPrivate)
    (hstatic : m.kind = .static → node.superclass = some sup) :
    (∃ n ∈ ((build h).membersOf type).methods, n.sameShape m) ∨
      ∃ other ∈ node.supertypes, ∃ n ∈ ((build h).membersOf other).methods, n.sameShape m ∧
        n.declaring ≠ m.declaring ∧ h.isSubtype n.declaring m.declaring := by
  have hi := (build h).members.inherits_inheritance h node
  have hoffered : m ∈ (node.superclass.toList.flatMap fun t => ((build h).membersOf t).methods) ∨
      m ∈ (node.interfaces.flatMap fun t => ((build h).membersOf t).methods) ∧
        m.kind ≠ .static := by
    by_cases hclass : node.superclass = some sup
    · exact .inl (List.mem_flatMap.mpr ⟨sup, by simp [hclass], hm⟩)
    · have hlisted : sup ∈ node.interfaces := by
        simpa [TypeNode.supertypes, hclass] using hsup
      exact .inr ⟨List.mem_flatMap.mpr ⟨sup, hlisted, hm⟩, fun hkind => hclass (hstatic hkind)⟩
  rw [methods_eq hb hnode]
  refine (hi.exists_sameShape hpublic hoffered).imp_right ?_
  rintro ⟨n, hn, hhides⟩
  rcases hn with hn | hn
  · obtain ⟨other, hother, hn⟩ := List.mem_flatMap.mp hn
    exact ⟨other, List.mem_append_left _ hother, n, hn, hhides⟩
  · obtain ⟨other, hother, hn⟩ := List.mem_flatMap.mp hn
    exact ⟨other, List.mem_append_right _ hother, n, hn, hhides⟩

/-- The visible methods of any type of a built hierarchy in which methods name the types that they
stand in. They are declared by the type or by types that supertype edges lead to, and the private
ones by the type itself. Of two different ones of one shape, neither is declared below the other
unless one type declares both. If superinterfaces are interfaces, two such methods that different
types declare both stem from interfaces. Nothing is hidden but by a method of the same shape: one
that is visible, or one that a direct supertype sees and that is declared further below. -/
theorem override_masking (hb : Hierarchy.build nodes policy = .ok h) (hnames : h.NamesOwners)
    (type : String) :
    let visible (t : String) := ((build h).membersOf t).methods
    (∀ m ∈ visible type, Relation.ReflTransGen h.nodes.Extends type m.declaring) ∧
    (∀ m ∈ visible type, m.declaring ≠ type → ¬ m.isPrivate) ∧
    (∀ m ∈ visible type, ∀ n ∈ visible type, m.sameShape n → m.signature ≠ n.signature →
      m.declaring = n.declaring ∨
        ¬ h.isSubtype m.declaring n.declaring ∧ ¬ h.isSubtype n.declaring m.declaring) ∧
    (h.ProperInterfaces → ∀ m ∈ visible type, ∀ n ∈ visible type, m.sameShape n →
      m.declaring ≠ n.declaring → h.isInterface m.declaring ∧ h.isInterface n.declaring) ∧
    ∀ node, h.get? type = some node →
      (∀ m ∈ node.declaredMethods, m ∈ visible type) ∧
      ∀ sup ∈ node.supertypes, ∀ m ∈ visible sup, ¬ m.isPrivate →
        (m.kind = .static → node.superclass = some sup) →
        (∃ n ∈ visible type, n.sameShape m) ∨
          ∃ other ∈ node.supertypes, ∃ n ∈ visible other, n.sameShape m ∧
            n.declaring ≠ m.declaring ∧ h.isSubtype n.declaring m.declaring := by
  intro visible
  refine ⟨fun m hm => (sees_of_mem_methods hnames hm).reaches,
    fun m hm => not_isPrivate_of_mem_methods hb hnames hm, fun m hm n hn hshape _ => ?_,
    fun hproper m hm n hn hshape hdeclaring => ?_, fun node hnode => ⟨fun m hm => ?_, ?_⟩⟩
  · obtain ⟨node, hnode⟩ := exists_node_of_mem_methods hb hm
    by_cases hdeclaring : m.declaring = n.declaring
    · exact .inl hdeclaring
    obtain ⟨hm', hn'⟩ := mem_survivors_of_sameShape hb hnames hnode hm hn hshape hdeclaring
    refine .inr ⟨Inheritance.not_isSubtype_of_mem_survivors hm' hn' hshape hdeclaring, ?_⟩
    rw [Method.sameShape_comm] at hshape
    exact Inheritance.not_isSubtype_of_mem_survivors hn' hm' hshape (Ne.symm hdeclaring)
  · obtain ⟨node, hnode⟩ := exists_node_of_mem_methods hb hm
    obtain ⟨hm', hn'⟩ := mem_survivors_of_sameShape hb hnames hnode hm hn hshape hdeclaring
    exact ⟨isInterface_of_mem_survivors hproper hnames hnode hm',
      isInterface_of_mem_survivors hproper hnames hnode hn'⟩
  · have hi := (build h).members.inherits_inheritance h node
    change m ∈ ((build h).membersOf type).methods
    rw [methods_eq hb hnode]
    exact List.mem_append_left _ (hi.takes.keepsOwn m hm)
  · exact fun sup hsup m hm => exists_sameShape_of_mem_supertype hb hnode hsup hm

/-- An interface, one that extends it and an unrelated one, all with a method `f` of one shape. A
class inherits the first one's from its superclass and implements the other two. -/
def rivals : List TypeNode :=
  let f (type : String) : Method :=
    { signature := ⟨type, "f", [], .void⟩, kind := .default, params := [], ret := .void }
  [{ name := "I", kind := .interface, methods := [f "I"] },
    { name := "J", kind := .interface, interfaces := ["I"], methods := [f "J"] },
    { name := "K", kind := .interface, interfaces := ["Missing"], methods := [f "K"] },
    { name := "Base", interfaces := ["I"] },
    { name := "C", superclass := some "Base", interfaces := ["J", "K"] }]

theorem override_masking_rivals : ∃ h, Hierarchy.build rivals .degrade = .ok h ∧
    h.NamesOwners ∧ h.ProperInterfaces ∧
    ((build h).membersOf "C").methods.map Method.declaring = ["J", "K"] ∧
    h.isInterface "J" ∧ h.isInterface "K" ∧ ¬ h.isSubtype "J" "K" := by
  have hb := Hierarchy.build_degrade rivals
  generalize hh : Hierarchy.index
    ((TypeTable.ofNodes rivals).cut (TypeTable.ofNodes rivals).cyclic) = h at hb
  have hcheck : h.NamesOwners ∧ h.ProperInterfaces ∧
      ((build h).membersOf "C").methods.map Method.declaring = ["J", "K"] ∧
      ∃ m ∈ ((build h).membersOf "C").methods, ∃ n ∈ ((build h).membersOf "C").methods,
        m.sameShape n ∧ m.declaring = "J" ∧ n.declaring = "K" := by
    subst hh
    decide +kernel
  obtain ⟨hnames, hproper, hvisible, m, hm, n, hn, hshape, hJ, hK⟩ := hcheck
  have hdeclaring : m.declaring ≠ n.declaring := by simp [hJ, hK]
  obtain ⟨-, -, hrelated, hinterfaces, -⟩ := override_masking hb hnames "C"
  have happart := (hrelated m hm n hn hshape fun hsame =>
    hdeclaring (congrArg Signature.declaring hsame)).resolve_left hdeclaring
  have hboth := hinterfaces hproper m hm n hn hshape hdeclaring
  rw [hJ, hK] at happart hboth
  exact ⟨h, hb, hnames, hproper, hvisible, hboth.1, hboth.2, happart.1⟩

end Catalog

end JavaCallGraph
