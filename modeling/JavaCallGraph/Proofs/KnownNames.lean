import JavaCallGraph.Proofs.ScopeNames

/-!
# Binding reads a set of names

Names come in one after another, some of them more than once, and each is listed under its simple
name in the order of arrival. Binding asks of the names only which are known and which simple names
belong to one known name alone, so it depends on the set of names that came in. A type it finds is
one of them.
-/

namespace JavaCallGraph

/-! ### Readings of a dotted name -/

/-- The dots of some suffix of `dotted` are dollar signs in `name`. -/
def IsReading (dotted name : String) : Prop :=
  ∃ front rest, dotted.toList = front ++ rest ∧ name.toList = front ++ nestAll rest

def readings (dotted : String) : List String :=
  dotted :: (nestings dotted.toList).map .ofList

theorem nestAll_eq_self {s : List Char} (h : '.' ∉ s) : nestAll s = s := by
  induction s with
  | nil => rfl
  | cons c s ih =>
    rw [List.mem_cons, not_or] at h
    rw [nestAll, List.map_cons, if_neg (Ne.symm h.1)]
    exact congrArg (c :: ·) (ih h.2)

/-- A suffix whose dots change begins at a dot, or can be cut down to one that does. -/
theorem mem_readings_iff {dotted name : String} :
    name ∈ readings dotted ↔ IsReading dotted name := by
  rw [readings, List.mem_cons, List.mem_map]
  constructor
  · rintro (rfl | ⟨reading, hreading, rfl⟩)
    · exact ⟨name.toList, [], by simp, by simp [nestAll]⟩
    · obtain ⟨front, rest, hdotted, rfl⟩ := mem_nestings.mp hreading
      exact ⟨front, '.' :: rest, hdotted, by simp [nestAll]⟩
  · rintro ⟨front, rest, hdotted, hname⟩
    by_cases hdot : '.' ∈ rest
    · right
      obtain ⟨before, after, rfl, hbefore⟩ := List.eq_append_cons_of_mem hdot
      refine ⟨front ++ before ++ '$' :: nestAll after, mem_nestings.mpr ?_, ?_⟩
      · exact ⟨front ++ before, after, by simp [hdotted], rfl⟩
      · apply String.toList_injective
        have hnest : nestAll (before ++ '.' :: after) = nestAll before ++ '$' :: nestAll after :=
          List.map_append
        rw [hname, hnest, nestAll_eq_self hbefore, String.toList_ofList, List.append_assoc]
    · left
      rw [nestAll_eq_self hdot, ← hdotted] at hname
      exact String.toList_injective hname

namespace TypeNames

variable {names other : TypeNames} {list list' : List String}

/-! ### The index by simple names -/

structure Indexed (names : TypeNames) : Prop where
  nodup : ∀ simple : String, (names.bySimple[simple]?.getD []).Nodup
  mem_iff : ∀ simple name : String, name ∈ names.bySimple[simple]?.getD [] ↔
    name ∈ names.known ∧ simpleName name = simple

theorem indexed_empty : Indexed {} := ⟨by simp, by simp⟩

theorem Indexed.insert (h : names.Indexed) (name : String) : (names.insert name).Indexed := by
  constructor
  · intro simple
    rw [listed_insert]
    split
    · next hnew =>
      refine List.nodup_append.mpr ⟨h.nodup simple, by simp, ?_⟩
      intro listed hlisted new hmem
      rintro rfl
      rw [List.mem_singleton.mp hmem] at hlisted
      exact hnew.1 ((h.mem_iff _ _).mp hlisted).1
    · rw [List.append_nil]
      exact h.nodup simple
  · intro simple listed
    rw [listed_insert, List.mem_append, h.mem_iff, mem_known_insert]
    by_cases hlisted : listed = name
    · subst hlisted
      by_cases hold : listed ∈ names.known <;> simp [hold]
    · rw [or_iff_right hlisted]
      split <;> simp [hlisted]

theorem indexed_ofList (list : List String) : (ofList list).Indexed :=
  List.foldlRecOn _ _ indexed_empty fun _ h name _ => h.insert name

theorem mem_known_foldl_insert {name : String} :
    name ∈ (list.foldl TypeNames.insert names).known ↔ name ∈ list ∨ name ∈ names.known := by
  induction list generalizing names with
  | nil => simp
  | cons first list ih =>
    rw [List.foldl_cons, ih, mem_known_insert, List.mem_cons]
    tauto

theorem mem_known_ofList {name : String} : name ∈ (ofList list).known ↔ name ∈ list := by
  rw [ofList, mem_known_foldl_insert]
  simp

theorem contains_ofList {name : String} : (ofList list).contains name ↔ name ∈ list := by
  rw [contains, ← Std.ExtTreeSet.mem_iff_contains, mem_known_ofList]

theorem all_ofList (list : List String) : (ofList list).All (· ∈ list) :=
  all_empty.foldl_insert fun _ hname => hname

theorem uniqueSimple?_eq_some_iff_listed {simple only : String} :
    names.uniqueSimple? simple = some only ↔ names.bySimple[simple]?.getD [] = [only] := by
  unfold uniqueSimple?
  split
  · next hlisted => simp [hlisted]
  · next hlisted =>
    cases hnames : names.bySimple[simple]? with
    | none => simp
    | some listed =>
      simp only [reduceCtorEq, Option.getD_some, false_iff]
      rintro rfl
      exact hlisted only hnames

/-- The place of a name in the index does not matter where it is the only one. -/
theorem Indexed.uniqueSimple?_eq_some_iff (h : names.Indexed) {simple only : String} :
    names.uniqueSimple? simple = some only ↔
      ∀ name, name ∈ names.known ∧ simpleName name = simple ↔ name = only := by
  rw [uniqueSimple?_eq_some_iff_listed, ← List.perm_singleton,
    List.perm_ext_iff_of_nodup (h.nodup simple) (by simp)]
  simp only [h.mem_iff, List.mem_singleton]

/-! ### Lookups that agree -/

structure Agree (names other : TypeNames) : Prop where
  contains : names.contains = other.contains
  uniqueSimple? : names.uniqueSimple? = other.uniqueSimple?

theorem agree_ofList (h : ∀ name, name ∈ list ↔ name ∈ list') :
    Agree (ofList list) (ofList list') := by
  have hknown : (ofList list).known = (ofList list').known := by
    apply Std.ExtTreeSet.ext_mem
    intro name
    rw [mem_known_ofList, mem_known_ofList, h name]
  constructor
  · funext name
    rw [TypeNames.contains, TypeNames.contains, hknown]
  · funext simple
    apply Option.ext
    intro only
    rw [(indexed_ofList list).uniqueSimple?_eq_some_iff,
      (indexed_ofList list').uniqueSimple?_eq_some_iff, hknown]

theorem Agree.find? (h : Agree names other) : names.find? = other.find? := by
  funext name
  rw [TypeNames.find?, TypeNames.find?, h.contains]

theorem Agree.resolveDotted (h : Agree names other) :
    names.resolveDotted = other.resolveDotted := by
  funext dotted
  rw [TypeNames.resolveDotted, TypeNames.resolveDotted, h.contains]

/-- Only the names are left that lookups by simple names can find. -/
def unique (names : TypeNames) : TypeNames :=
  { names with bySimple := names.bySimple.filter fun _ same => same.length == 1 }

theorem getElem?_bySimple_unique (names : TypeNames) (simple : String) :
    names.unique.bySimple[simple]? = (names.uniqueSimple? simple).map ([·]) := by
  rw [unique, Std.ExtTreeMap.getElem?_filter', TypeNames.uniqueSimple?]
  split
  · next only hlisted => simp [hlisted]
  · next hlisted =>
    cases hnames : names.bySimple[simple]? with
    | none => rfl
    | some same =>
      rw [Option.filter_some, if_neg]
      · rfl
      · rw [beq_iff_eq, List.length_eq_one_iff]
        rintro ⟨only, rfl⟩
        exact hlisted only hnames

theorem agree_unique (names : TypeNames) : Agree names.unique names := by
  refine ⟨rfl, ?_⟩
  funext simple
  rw [TypeNames.uniqueSimple?, getElem?_bySimple_unique]
  cases names.uniqueSimple? simple <;> rfl

/-- Lookups that agree leave the same names. -/
theorem Agree.unique_eq (h : Agree names other) : names.unique = other.unique := by
  have hknown : names.known = other.known := by
    apply Std.ExtTreeSet.ext_contains
    intro name
    exact congrFun h.contains name
  have hsimple : names.unique.bySimple = other.unique.bySimple := by
    apply Std.ExtTreeMap.ext_getElem?
    intro simple
    rw [getElem?_bySimple_unique, getElem?_bySimple_unique, h.uniqueSimple?]
  rw [unique, unique, TypeNames.mk.injEq]
  exact ⟨hknown, hsimple⟩

theorem resolveDotted_eq_find? (names : TypeNames) (dotted : String) :
    names.resolveDotted dotted = (readings dotted).find? names.contains := by
  rw [resolveDotted, findNesting?_reverse, readings, List.find?_cons]
  cases names.contains dotted <;> rfl

end TypeNames

namespace UnitScope

open TypeNames (Agree)

variable {names other : TypeNames} (scope : UnitScope) (current : Option String)

theorem resolveNested_eq (h : Agree names other) (written : String) :
    resolveNested names current written = resolveNested other current written := by
  unfold resolveNested
  rw [h.find?]

theorem resolveSimple_eq (h : Agree names other) (written : String) :
    scope.resolveSimple names current written = scope.resolveSimple other current written := by
  unfold resolveSimple
  rw [resolveNested_eq current h, h.find?, h.resolveDotted, h.uniqueSimple?]

theorem resolveKnown_eq (h : Agree names other) (written : String) :
    scope.resolveKnown names current written = scope.resolveKnown other current written := by
  unfold resolveKnown
  simp only [resolveSimple_eq scope current h, h.resolveDotted]

theorem resolveTypeName_eq (h : Agree names other) (written : String) :
    scope.resolveTypeName names current written = scope.resolveTypeName other current written := by
  unfold resolveTypeName
  rw [resolveKnown_eq scope current h]

theorem bindAll_eq_map (names : TypeNames) (vars : List String) (ts : List TypeRef) :
    scope.bindAll names current vars ts = ts.map (scope.bind names current vars) := by
  induction ts with
  | nil => rw [bindAll, List.map_nil]
  | cons t ts ih => rw [bindAll, ih, List.map_cons]

theorem bind_eq (h : Agree names other) (vars : List String) (t : TypeRef) :
    scope.bind names current vars t = scope.bind other current vars t := by
  -- The arguments of a written type are smaller than the type.
  induction hsize : sizeOf t using Nat.strong_induction_on generalizing t with
  | _ size ih =>
    subst hsize
    obtain ⟨name, args, dims⟩ := t
    have hargs : scope.bindAll names current vars args = scope.bindAll other current vars args := by
      rw [bindAll_eq_map, bindAll_eq_map]
      apply List.map_congr_left
      intro arg harg
      have hlt := List.sizeOf_lt_of_mem harg
      exact ih (sizeOf arg) (by simp only [TypeRef.mk.sizeOf_spec]; omega) arg rfl
    rw [bind, bind, hargs, resolveTypeName_eq scope current h]

/-- A name with dots is found when one of its readings is known. -/
theorem isSome_resolveKnown_of_reading {written name : String} (hdot : '.' ∈ written.toList)
    (hname : names.contains name) (hreading : IsReading written name) :
    (scope.resolveKnown names current written).isSome := by
  have hdotted : (names.resolveDotted written).isSome := by
    rw [TypeNames.resolveDotted_eq_find?, List.find?_isSome]
    exact ⟨name, mem_readings_iff.mpr hreading, hname⟩
  unfold resolveKnown
  split
  · next hsplit =>
    obtain ⟨front, rest, hwritten, hfront⟩ := List.eq_append_cons_of_mem hdot
    rw [Signature.splitAtFirst_eq_some_iff.mpr ⟨hfront, hwritten⟩] at hsplit
    cases hsplit
  · rw [Option.orElse_eq_orElse, Option.orElse_eq_or, Option.isSome_or, hdotted, Bool.or_true]

/-- A name is found when it is the simple name of one known type alone. -/
theorem isSome_resolveKnown_of_uniqueSimple? {written only : String}
    (honly : names.uniqueSimple? written = some only) (hsimple : simpleName only = written) :
    (scope.resolveKnown names current written).isSome := by
  unfold resolveKnown
  split
  · simp [resolveSimple, honly]
  · next head rest hsplit =>
    have hdot : '.' ∈ written.toList := by
      rw [(Signature.splitAtFirst_eq_some_iff.mp hsplit).2]
      simp
    rw [← hsimple, simpleName, String.toList_ofList, List.mem_reverse] at hdot
    have hno := List.mem_takeWhile_imp hdot
    cases hno

theorem staticOwners_eq (h : Agree names other) (member : String) :
    scope.staticOwners names member = scope.staticOwners other member := by
  unfold staticOwners
  rw [h.resolveDotted]

/-- Whatever the imports of the unit and the type around it, a name binds to one of the names that
came in, or to none. The order in which they came and how often does not show. -/
theorem binds_into_name_set (list : List String) :
    (∀ (scope : UnitScope) (current : Option String) (written : String),
      ((∀ type ∈ current, ∀ owner ∈ lexicalChain type, owner ∈ list) →
        ∀ found ∈ scope.resolveKnown (.ofList list) current written, found ∈ list) ∧
      ('.' ∈ written.toList → (∃ name ∈ list, IsReading written name) →
        (scope.resolveKnown (.ofList list) current written).isSome) ∧
      ((∃! name, name ∈ list ∧ simpleName name = written) →
        (scope.resolveKnown (.ofList list) current written).isSome)) ∧
    (∀ dotted : String,
      (∀ found ∈ (TypeNames.ofList list).resolveDotted dotted,
        found ∈ list ∧ IsReading dotted found) ∧
      ((TypeNames.ofList list).resolveDotted dotted = none →
        ∀ name ∈ list, ¬IsReading dotted name)) ∧
    ∀ list' : List String, (∀ name, name ∈ list ↔ name ∈ list') →
      ∀ (scope : UnitScope) (current : Option String),
        (∀ written, scope.resolveKnown (.ofList list) current written =
          scope.resolveKnown (.ofList list') current written) ∧
        (∀ written, scope.resolveTypeName (.ofList list) current written =
          scope.resolveTypeName (.ofList list') current written) ∧
        (∀ vars t, scope.bind (.ofList list) current vars t =
          scope.bind (.ofList list') current vars t) ∧
        ∀ member, scope.staticOwners (.ofList list) member =
          scope.staticOwners (.ofList list') member := by
  refine ⟨fun scope current written => ⟨?_, ?_, ?_⟩, fun dotted => ⟨?_, ?_⟩, ?_⟩
  · intro hcurrent found hfound
    rcases of_resolveKnown (TypeNames.all_ofList list) hfound with hmem | ⟨type, htype, hchain, -⟩
    · exact hmem
    · exact hcurrent type htype found hchain
  · rintro hdot ⟨name, hmem, hreading⟩
    exact isSome_resolveKnown_of_reading scope current hdot
      (TypeNames.contains_ofList.mpr hmem) hreading
  · rintro ⟨only, ⟨hmem, hsimple⟩, honly⟩
    have hunique : (TypeNames.ofList list).uniqueSimple? written = some only := by
      rw [(TypeNames.indexed_ofList list).uniqueSimple?_eq_some_iff]
      intro name
      rw [TypeNames.mem_known_ofList]
      exact ⟨honly name, by rintro rfl; exact ⟨hmem, hsimple⟩⟩
    exact isSome_resolveKnown_of_uniqueSimple? scope current hunique hsimple
  · intro found hfound
    rw [Option.mem_def, TypeNames.resolveDotted_eq_find?] at hfound
    exact ⟨TypeNames.contains_ofList.mp (List.find?_some hfound),
      mem_readings_iff.mp (List.mem_of_find?_eq_some hfound)⟩
  · intro hnone name hmem hreading
    rw [TypeNames.resolveDotted_eq_find?, List.find?_eq_none] at hnone
    exact hnone name (mem_readings_iff.mpr hreading) (TypeNames.contains_ofList.mpr hmem)
  · intro list' hmem scope current
    have hagree := TypeNames.agree_ofList hmem
    exact ⟨resolveKnown_eq scope current hagree, resolveTypeName_eq scope current hagree,
      bind_eq scope current hagree, staticOwners_eq scope hagree⟩

def arrivals : List String := ["q.T", "p.A", "p.A$B", "r.T", "q.T", "q.Only"]

theorem binds_into_name_set_nested :
    (∀ type ∈ some "p.A$B", ∀ owner ∈ lexicalChain type, owner ∈ arrivals) ∧
    (ofImports "p" []).resolveKnown (.ofList arrivals) (some "p.A$B") "A.B" = some "p.A$B" ∧
    "p.A$B" ∈ arrivals ∧
    (∃! name, name ∈ arrivals ∧ simpleName name = "Only") ∧
    ((ofImports "p" []).resolveKnown (.ofList arrivals) (some "p.A$B") "Only").isSome ∧
    (∀ name, name ∈ arrivals ↔ name ∈ arrivals.reverse) ∧
    (ofImports "p" []).resolveKnown (.ofList arrivals) (some "p.A$B") "T" =
      (ofImports "p" []).resolveKnown (.ofList arrivals.reverse) (some "p.A$B") "T" := by
  obtain ⟨hknown, -, horder⟩ := binds_into_name_set arrivals
  have hmem := (hknown (ofImports "p" []) (some "p.A$B") "A.B").1
  have hcurrent : ∀ type ∈ some "p.A$B", ∀ owner ∈ lexicalChain type, owner ∈ arrivals := by
    rintro _ ⟨⟩
    decide +kernel
  have hnested : (ofImports "p" []).resolveKnown (.ofList arrivals) (some "p.A$B") "A.B" =
      some "p.A$B" := by
    decide +kernel
  have honly : ∃! name, name ∈ arrivals ∧ simpleName name = "Only" := by
    refine ⟨"q.Only", by decide +kernel, ?_⟩
    rintro name ⟨hname, hsimple⟩
    have hall : arrivals.all fun name => simpleName name = "Only" → name = "q.Only" := by
      decide +kernel
    exact of_decide_eq_true (List.all_eq_true.mp hall name hname) hsimple
  have hreverse (name : String) : name ∈ arrivals ↔ name ∈ arrivals.reverse :=
    List.mem_reverse.symm
  exact ⟨hcurrent, hnested, hmem hcurrent _ hnested, honly,
    (hknown _ _ "Only").2.2 honly, hreverse, (horder _ hreverse _ _).1 "T"⟩

end UnitScope

end JavaCallGraph
