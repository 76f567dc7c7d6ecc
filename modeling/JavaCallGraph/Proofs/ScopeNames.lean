import JavaCallGraph.Program
import JavaCallGraph.Proofs.NameSets
import JavaCallGraph.Proofs.SignatureCodec

/-!
# Names that binding can produce

A written type name stands for a known type, for a type around the place where it is written, for
what it is imported as, or for itself. So a descriptor that binding makes is well formed when these
names are: none of them is empty or has a semicolon.
-/

namespace JavaCallGraph

theorem findNesting?_isKnown {isKnown : String → Bool} {front rest : List Char} {reading : String}
    (h : findNesting? isKnown front rest = some reading) : isKnown reading := by
  induction front generalizing rest with
  | nil => cases h
  | cons c front ih =>
    rw [findNesting?] at h
    dsimp only at h
    split at h
    · split at h
      · next hknown =>
        cases h
        exact hknown
      · exact ih h
    · exact ih h

theorem mem_of_mem_enclosingNames {cs : List Char} {owner : String}
    (h : owner ∈ enclosingNames cs) :
    ∀ c ∈ owner.toList, c ∈ cs := by
  induction cs with
  | nil => cases h
  | cons d front ih =>
    intro c hc
    rw [enclosingNames] at h
    split at h
    · rcases List.mem_cons.mp h with rfl | h
      · exact List.mem_cons_of_mem d (by simpa using hc)
      · exact List.mem_cons_of_mem d (ih h c hc)
    · exact List.mem_cons_of_mem d (ih h c hc)

theorem mem_of_mem_lexicalChain {type owner : String} (h : owner ∈ lexicalChain type) :
    ∀ c ∈ owner.toList, c ∈ type.toList := by
  intro c hc
  rcases List.mem_cons.mp h with rfl | h
  · exact hc
  · exact List.mem_reverse.mp (mem_of_mem_enclosingNames h c hc)

namespace TypeNames

variable {P : String → Prop} {names : TypeNames} {name : String}

def All (P : String → Prop) (names : TypeNames) : Prop :=
  (∀ name ∈ names.known, P name) ∧
    ∀ simple : String, ∀ name ∈ names.bySimple[simple]?.getD [], P name

theorem all_empty : All P {} := ⟨by simp, by simp⟩

theorem mem_known_insert {other : String} :
    other ∈ (names.insert name).known ↔ other = name ∨ other ∈ names.known := by
  unfold TypeNames.insert
  split
  · next hname =>
    rw [iff_or_self]
    rintro rfl
    exact Std.ExtTreeSet.mem_iff_contains.mpr hname
  · exact mem_insert_iff

/-- A new name is listed last under its simple name, and a name that is known not again. -/
theorem listed_insert (simple : String) :
    (names.insert name).bySimple[simple]?.getD [] = names.bySimple[simple]?.getD [] ++
      if name ∉ names.known ∧ simpleName name = simple then [name] else [] := by
  unfold TypeNames.insert
  split
  · next hname => simp [Std.ExtTreeSet.mem_iff_contains.mpr hname]
  · next hname =>
    rw [Std.ExtTreeMap.getElem?_alter]
    by_cases hsimple : simpleName name = simple
    · subst hsimple
      simp [Std.ExtTreeSet.mem_iff_contains, hname]
    · simp [hsimple]

theorem All.insert (h : names.All P) (hname : P name) : (names.insert name).All P := by
  constructor
  · intro other hother
    rcases mem_known_insert.mp hother with rfl | hother
    · exact hname
    · exact h.1 other hother
  · intro simple other hother
    rw [listed_insert] at hother
    rcases List.mem_append.mp hother with hother | hother
    · exact h.2 simple other hother
    · split at hother
      · rwa [List.mem_singleton.mp hother]
      · cases hother

theorem All.foldl_insert (h : names.All P) {list : List String} (hlist : ∀ name ∈ list, P name) :
    (list.foldl TypeNames.insert names).All P :=
  List.foldlRecOn _ _ h fun _ hsome name hname => hsome.insert (hlist name hname)

theorem All.of_contains (h : names.All P) (hname : names.contains name) : P name :=
  h.1 name (Std.ExtTreeSet.mem_iff_contains.mpr hname)

theorem All.of_find? (h : names.All P) {found : String} (hfound : names.find? name = some found) :
    P found := by
  unfold find? at hfound
  split at hfound
  · next hname =>
    cases hfound
    exact h.of_contains hname
  · cases hfound

theorem All.of_uniqueSimple? (h : names.All P) {found : String}
    (hfound : names.uniqueSimple? name = some found) : P found := by
  unfold uniqueSimple? at hfound
  split at hfound
  · next only hlist =>
    cases hfound
    apply h.2 name
    simp [hlist]
  · cases hfound

theorem All.of_resolveDotted (h : names.All P) {found : String}
    (hfound : names.resolveDotted name = some found) : P found := by
  unfold resolveDotted at hfound
  split at hfound
  · next hname =>
    cases hfound
    exact h.of_contains hname
  · exact h.of_contains (findNesting?_isKnown hfound)

end TypeNames

namespace UnitScope

variable {scope : UnitScope} {names : TypeNames} {current : Option String} {P : String → Prop}
  {written found : String}

theorem of_resolveNested (hnames : names.All P)
    (h : resolveNested names current written = some found) :
    P found ∨ ∃ type ∈ current, found ∈ lexicalChain type ∧ simpleName found = written := by
  obtain ⟨type, htype, h⟩ := Option.bind_eq_some_iff.mp h
  obtain ⟨owner, howner, h⟩ := List.exists_of_findSome?_eq_some h
  split at h
  · next hsimple =>
    cases h
    exact .inr ⟨type, htype, howner, by simpa using hsimple⟩
  · exact .inl (hnames.of_find? h)

/-- What a name without dots resolves to is known, or a type around it of that simple name. -/
theorem of_resolveSimple (hnames : names.All P)
    (h : scope.resolveSimple names current written = some found) :
    P found ∨ ∃ type ∈ current, found ∈ lexicalChain type ∧ simpleName found = written := by
  simp only [resolveSimple, Option.orElse_eq_orElse, Option.orElse_eq_or,
    Option.or_eq_some_iff] at h
  rcases h with h | ⟨-, h | ⟨-, h | ⟨-, h | ⟨-, h | ⟨-, h⟩⟩⟩⟩⟩
  · exact of_resolveNested hnames h
  · obtain ⟨path, -, h⟩ := Option.bind_eq_some_iff.mp h
    exact .inl (hnames.of_resolveDotted h)
  · exact .inl (hnames.of_find? h)
  · obtain ⟨owner, -, h⟩ := List.exists_of_findSome?_eq_some h
    exact .inl (hnames.of_resolveDotted h)
  · exact .inl (hnames.of_find? h)
  · exact .inl (hnames.of_uniqueSimple? h)

theorem of_resolveKnown (hnames : names.All P)
    (h : scope.resolveKnown names current written = some found) :
    P found ∨ ∃ type ∈ current, found ∈ lexicalChain type ∧ simpleName found = written := by
  unfold resolveKnown at h
  split at h
  · exact of_resolveSimple hnames h
  · simp only [Option.orElse_eq_orElse, Option.orElse_eq_or, Option.or_eq_some_iff] at h
    rcases h with h | ⟨-, h⟩
    · obtain ⟨outer, -, h⟩ := Option.bind_eq_some_iff.mp h
      exact .inl (hnames.of_resolveDotted h)
    · exact .inl (hnames.of_resolveDotted h)

def ImportsReadable (scope : UnitScope) : Prop :=
  ∀ written path : String, scope.single[written]? = some path → written ≠ "" → EndsBefore ';' path

theorem ImportsReadable.addImport (h : scope.ImportsReadable) {i : Import}
    (hi : ';' ∉ i.path.toList) : (scope.addImport i).ImportsReadable := by
  unfold UnitScope.addImport
  split
  · refine forall_getElem?_insert h fun hsimple => ⟨?_, hi⟩
    intro hpath
    rw [hpath] at hsimple
    exact hsimple rfl
  · exact h
  · split
    · exact h
    · exact h
  · exact h

theorem importsReadable_ofUnit {unit : CompilationUnit}
    (h : ∀ i ∈ unit.imports, ';' ∉ i.path.toList) : (ofUnit unit).ImportsReadable :=
  List.foldlRecOn _ _ (fun written path h => by simp at h) fun _ hscope i hi =>
    hscope.addImport (h i hi)

theorem endsBefore_resolveTypeName (hnames : names.All (EndsBefore ';'))
    (himports : scope.ImportsReadable) (hcurrent : ∀ type ∈ current, ';' ∉ type.toList)
    (hwritten : EndsBefore ';' written) :
    EndsBefore ';' (scope.resolveTypeName names current written) := by
  unfold resolveTypeName
  cases hknown : scope.resolveKnown names current written with
  | none =>
    cases hsingle : scope.single[written]? with
    | none => exact hwritten
    | some path => exact himports written path hsingle hwritten.1
  | some found =>
    rcases of_resolveKnown hnames hknown with hfound | ⟨type, htype, hchain, hsimple⟩
    · exact hfound
    · refine ⟨?_, fun hmem => hcurrent type htype (mem_of_mem_lexicalChain hchain _ hmem)⟩
      intro hempty
      rw [Option.getD_some] at hempty
      rw [hempty] at hsimple
      exact hwritten.1 hsimple.symm

theorem wellFormed_desc_bind (hnames : names.All (EndsBefore ';'))
    (himports : scope.ImportsReadable) (hcurrent : ∀ type ∈ current, ';' ∉ type.toList)
    (vars : List String) {t : TypeRef} (ht : EndsBefore ';' t.name) :
    (scope.bind names current vars t).desc.WellFormed := by
  have hrank (base : StaticType) (hbase : base.desc.WellFormed) (dims : Nat) :
      (base.arrayOfRank dims).desc.WellFormed := by
    induction dims with
    | zero => exact hbase
    | succ n ih => exact ih
  obtain ⟨name, args, dims⟩ := t
  rw [bind]
  apply hrank
  split
  · trivial
  · split
    · exact ht
    · exact endsBefore_resolveTypeName hnames himports hcurrent ht

end UnitScope

end JavaCallGraph
