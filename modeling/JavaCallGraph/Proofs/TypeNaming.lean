import JavaCallGraph.Proofs.LoweredTypes
import JavaCallGraph.Scope
import Std.Data.String.ToNat

/-!
# Names of the types of a file

If the simple names that a file writes are no numbers and have no dollar signs, the last dollar sign
of a type's name divides the name of the type around it from its own. So the names of anonymous
classes are told apart by their numbers, and the types around a type can be read off its name.
-/

namespace JavaCallGraph

/-! ### Dollar signs -/

theorem enclosingNames_append {back : List Char} (h : '$' ∉ back) (front : List Char) :
    enclosingNames (back ++ front) = enclosingNames front := by
  induction back with
  | nil => rfl
  | cons c back ih =>
    simp only [List.mem_cons, not_or] at h
    rw [List.cons_append, enclosingNames, if_neg (Ne.symm h.1), ih h.2]

theorem lexicalChain_top {name : String} (h : '$' ∉ name.toList) : lexicalChain name = [name] := by
  have hnone := enclosingNames_append (fun hmem => h (List.mem_reverse.mp hmem)) []
  rw [List.append_nil] at hnone
  rw [lexicalChain, hnone, enclosingNames]

theorem lexicalChain_nested {simple : String} (h : '$' ∉ simple.toList) (owner : String) :
    lexicalChain (owner ++ "$" ++ simple) = (owner ++ "$" ++ simple) :: lexicalChain owner := by
  have hback : '$' ∉ simple.toList.reverse := fun hmem => h (List.mem_reverse.mp hmem)
  simp [lexicalChain, enclosingNames_append hback, enclosingNames]

/-- The last dollar sign divides a name in one way. -/
theorem nested_inj {owner owner' simple simple' : String} (h : '$' ∉ simple.toList)
    (h' : '$' ∉ simple'.toList) (heq : owner ++ "$" ++ simple = owner' ++ "$" ++ simple') :
    owner = owner' ∧ simple = simple' := by
  have hchain := congrArg lexicalChain heq
  rw [lexicalChain_nested h, lexicalChain_nested h'] at hchain
  have howner : owner = owner' := (List.cons.inj (List.cons.inj hchain).2).1
  subst howner
  exact ⟨rfl, (String.append_right_inj _).mp heq⟩

theorem isDigit_of_mem_toString {n : Nat} {c : Char} (h : c ∈ (toString n).toList) : c.isDigit := by
  rw [Nat.toString_eq_ofList_toDigits, String.toList_ofList] at h
  exact Nat.isDigit_of_mem_toDigits (by decide) (by decide) h

/-! ### Consistent names -/

def ProperSimple (name : String) : Prop :=
  name ≠ "" ∧ '$' ∉ name.toList ∧ name.toList.all Char.isDigit = false

instance (name : String) : Decidable (ProperSimple name) := inferInstanceAs (Decidable (_ ∧ _))

def properNames : NameRules := ⟨ProperSimple, fun package => '$' ∉ package.toList⟩

structure Tree.NamesProper (tree : SyntaxTree) : Prop where
  simple : tree.Everywhere fun t => t.kind.isTypeDeclaration → ProperSimple (t.childText .name)
  package : ∀ t ∈ tree.namedChildren, t.kind = .packageDeclaration →
    ∀ package ∈ dottedName? t.namedChildren, '$' ∉ package.toList

inductive EnclosingChain (types : List TypeDecl) : TypeDecl → List String → Prop
  | top {d : TypeDecl} (h : d.enclosing = none) : EnclosingChain types d [d.name]
  | inside {d e : TypeDecl} {names : List String} (he : e ∈ types)
    (h : d.enclosing = some e.name) (rest : EnclosingChain types e names) :
    EnclosingChain types d (d.name :: names)

structure CompilationUnit.ConsistentNames (u : CompilationUnit) : Prop where
  anonymous : (anonymousNames u.types).Nodup
  /-- The anonymous classes of a type are numbered from 1 on without a gap. -/
  numbered : ∀ owner, ∃ k, (numbersOf owner u.types).Perm ((List.range' 1 k).map toString)
  /-- An expression with a class body names exactly one type, which is an anonymous class. -/
  creation : ∀ name ∈ u.bodyTypes, ∃ d, u.types.filter (·.name == name) = [d] ∧ d.kind = .anonymous
  /-- No two expressions name the same one. -/
  creations : u.bodyTypes.Nodup
  nested : ∀ before d after owner, u.types = before ++ d :: after → d.enclosing = some owner →
    d.name = owner ++ "$" ++ d.simpleName ∧ ∃ e ∈ after, e.name = owner
  chain : ∀ d ∈ u.types, ∀ names, EnclosingChain u.types d names ↔ names = lexicalChain d.name

/-! ### Types that are declared -/

namespace TypeDecl.Lawful

variable {rules : NameRules} {d : TypeDecl}

theorem name_nested (h : d.Lawful rules) {owner : String} (howner : d.enclosing = some owner) :
    d.name = owner ++ "$" ++ d.simpleName := by
  obtain ⟨package, -, hname⟩ := h.named
  rw [hname, howner]
  rfl

theorem name_top (h : d.Lawful properNames) (htop : d.enclosing = none) : '$' ∉ d.name.toList := by
  have hsimple : '$' ∉ d.simpleName.toList := by
    refine (h.written fun hkind => ?_).2.1
    have hinside := h.inside hkind
    rw [htop] at hinside
    cases hinside
  obtain ⟨package, hpackage, hname⟩ := h.named
  rw [hname, htop]
  cases package with
  | none => exact hsimple
  | some package =>
    have hdivided : '$' ∉ package.toList := hpackage package rfl
    simpa [Lower.qualifiedName, hdivided] using hsimple

end TypeDecl.Lawful

namespace Declared

variable {s : Lowered} {types : List TypeDecl} {d e : TypeDecl}
  (h : Declared properNames none {} s types)

include h

theorem numbersOf_perm (owner : String) : (numbersOf owner types).Perm (s.given owner) := by
  refine List.perm_iff_count.mpr fun y => ?_
  have hcount := h.numbered owner y
  have hstart : ({} : Lowered).given owner = [] := by simp [Lowered.given]
  rw [hstart] at hcount
  simpa using hcount.symm

theorem nodup_numbersOf (owner : String) : (numbersOf owner types).Nodup := by
  refine (h.numbersOf_perm owner).nodup_iff.mpr ?_
  exact (List.nodup_range' 1).map fun _ _ => Nat.repr_injective

theorem simpleName_anonymous (hd : d ∈ types) (hkind : d.kind = .anonymous) :
    ∃ n : Nat, d.simpleName = toString n := by
  obtain ⟨owner, howner⟩ := Option.isSome_iff_exists.mp ((h.lawful d hd).inside hkind)
  have hmem : d.simpleName ∈ numbersOf owner types :=
    List.mem_map_of_mem (List.mem_filter.mpr ⟨hd, by simp [hkind, howner]⟩)
  obtain ⟨n, -, hn⟩ := List.mem_map.mp ((h.numbersOf_perm owner).subset hmem)
  exact ⟨n, hn.symm⟩

theorem undivided_simpleName (hd : d ∈ types) : '$' ∉ d.simpleName.toList := by
  by_cases hkind : d.kind = .anonymous
  · obtain ⟨n, hn⟩ := h.simpleName_anonymous hd hkind
    rw [hn]
    intro hmem
    cases isDigit_of_mem_toString hmem
  · exact ((h.lawful d hd).written hkind).2.1

/-- A type with the name of an anonymous class is anonymous too, and has the same number. -/
theorem eq_of_name_eq (hd : d ∈ types) (hkind : d.kind = .anonymous) (he : e ∈ types)
    (hname : e.name = d.name) :
    e.kind = .anonymous ∧ e.enclosing = d.enclosing ∧ e.simpleName = d.simpleName := by
  have hlawful := h.lawful d hd
  obtain ⟨owner, howner⟩ := Option.isSome_iff_exists.mp (hlawful.inside hkind)
  have hdollar : '$' ∈ d.name.toList := by simp [hlawful.name_nested howner]
  cases hother : e.enclosing with
  | none => exact absurd (hname ▸ hdollar) ((h.lawful e he).name_top hother)
  | some other =>
    rw [(h.lawful e he).name_nested hother, hlawful.name_nested howner] at hname
    obtain ⟨rfl, hsimple⟩ :=
      nested_inj (h.undivided_simpleName he) (h.undivided_simpleName hd) hname
    refine ⟨?_, howner.symm, hsimple⟩
    by_contra hwritten
    obtain ⟨n, hn⟩ := h.simpleName_anonymous hd hkind
    obtain ⟨c, hc, hdigit⟩ := List.all_eq_false.mp ((h.lawful e he).written hwritten).2.2
    rw [hsimple, hn] at hc
    exact hdigit (isDigit_of_mem_toString hc)

/-- The types with the name of an anonymous class are those with its number. -/
theorem countP_name (hd : d ∈ types) (hkind : d.kind = .anonymous) :
    types.countP (·.name == d.name) ≤ 1 := by
  obtain ⟨owner, howner⟩ := Option.isSome_iff_exists.mp ((h.lawful d hd).inside hkind)
  have hnumber := List.nodup_iff_count_le_one.mp (h.nodup_numbersOf owner) d.simpleName
  rw [numbersOf, List.count_eq_countP, List.countP_map, List.countP_filter] at hnumber
  refine Nat.le_trans (List.countP_mono_left fun e he hname => ?_) hnumber
  obtain ⟨hkind', hinside, hsimple⟩ := h.eq_of_name_eq hd hkind he (eq_of_beq hname)
  simp [hkind', hinside, howner, hsimple]

theorem nodup_anonymousNames : (anonymousNames types).Nodup := by
  refine List.nodup_iff_count_le_one.mpr fun name => ?_
  by_cases hmem : name ∈ anonymousNames types
  · obtain ⟨d, hd, rfl⟩ := List.mem_map.mp hmem
    obtain ⟨hd, hkind⟩ := List.mem_filter.mp hd
    rw [anonymousNames, List.count_eq_countP, List.countP_map]
    exact (List.filter_sublist.countP_le).trans (h.countP_name hd (eq_of_beq hkind))
  · rw [List.count_eq_zero_of_not_mem hmem]
    exact Nat.zero_le 1

theorem filter_name (hd : d ∈ types) (hkind : d.kind = .anonymous) :
    types.filter (·.name == d.name) = [d] := by
  have hmem : d ∈ types.filter (·.name == d.name) := List.mem_filter.mpr ⟨hd, beq_self_eq_true _⟩
  have hlength := h.countP_name hd hkind
  rw [List.countP_eq_length_filter] at hlength
  obtain ⟨e, he⟩ := List.length_eq_one_iff.mp
    (Nat.le_antisymm hlength (List.length_pos_of_mem hmem))
  rw [he] at hmem ⊢
  rw [List.mem_singleton.mp hmem]

end Declared

theorem Enclosed.exists_after {before after : List TypeDecl} {d : TypeDecl}
    (h : Enclosed none (before ++ d :: after)) {owner : String}
    (howner : d.enclosing = some owner) : ∃ e ∈ after, e.name = owner := by
  induction before with
  | nil => exact (h.1 owner howner).resolve_left (by simp)
  | cons e before ih => exact ih h.2

/-! ### Chains of enclosing types -/

namespace Declared

variable {s : Lowered} {types : List TypeDecl} {d : TypeDecl}
  (h : Declared properNames none {} s types)

include h

theorem enclosingChain_lexicalChain {ds : List TypeDecl} (henclosed : Enclosed none ds)
    (hds : ∀ d ∈ ds, d ∈ types) : ∀ d ∈ ds, EnclosingChain types d (lexicalChain d.name) := by
  induction ds with
  | nil => exact fun d hd => by cases hd
  | cons d ds ih =>
    have hrest := ih henclosed.2 fun e he => hds e (List.mem_cons_of_mem d he)
    intro e he
    rcases List.mem_cons.mp he with rfl | he
    · have hlawful := h.lawful e (hds e List.mem_cons_self)
      cases hinside : e.enclosing with
      | none =>
        rw [lexicalChain_top (hlawful.name_top hinside)]
        exact .top hinside
      | some owner =>
        obtain ⟨o, ho, rfl⟩ := (henclosed.1 owner hinside).resolve_left (by simp)
        have hundivided := h.undivided_simpleName (hds e List.mem_cons_self)
        have hchain := lexicalChain_nested hundivided o.name
        rw [← hlawful.name_nested hinside] at hchain
        rw [hchain]
        exact .inside (hds o (List.mem_cons_of_mem e ho)) hinside (hrest o ho)
    · exact hrest e he

theorem eq_lexicalChain (hd : d ∈ types) {names : List String}
    (hchain : EnclosingChain types d names) : names = lexicalChain d.name := by
  induction hchain with
  | top htop => rw [lexicalChain_top ((h.lawful _ hd).name_top htop)]
  | inside he hinside _ ih =>
    rw [ih he, (h.lawful _ hd).name_nested hinside,
      lexicalChain_nested (h.undivided_simpleName hd)]

end Declared

namespace CompilationUnit

open JavaCallGraph.Tree (braced creation statement methodOf classOf packageOf fileOf)

/-- The types of a file are named consistently: anonymous classes by the type around them and a
number, each by the one expression that declares it, and all other types by the types around
them. -/
theorem consistentNames_ofTree {tree : SyntaxTree} (h : tree.NamesProper) (path : String)
    (hasErrors : Bool) : (ofTree path hasErrors tree).ConsistentNames := by
  obtain ⟨s, hdeclared, hcount⟩ :=
    exists_declared_ofTree properNames h.simple h.package path hasErrors
  have hnodup := List.nodup_iff_count_le_one.mp hdeclared.nodup_anonymousNames
  refine ⟨hdeclared.nodup_anonymousNames, fun owner => ⟨_, hdeclared.numbersOf_perm owner⟩,
    fun name hname => ?_, ?_, fun before d after owner htypes howner => ?_,
    fun d hd names => ⟨hdeclared.eq_lexicalChain hd, ?_⟩⟩
  · have hmem : name ∈ anonymousNames (ofTree path hasErrors tree).types :=
      List.count_pos_iff.mp ((List.count_pos_iff.mpr hname).trans_le (hcount name))
    obtain ⟨d, hd, rfl⟩ := List.mem_map.mp hmem
    obtain ⟨hd, hkind⟩ := List.mem_filter.mp hd
    exact ⟨d, hdeclared.filter_name hd (eq_of_beq hkind), eq_of_beq hkind⟩
  · exact List.nodup_iff_count_le_one.mpr fun name => (hcount name).trans (hnodup name)
  · have henclosed := hdeclared.enclosed
    have hlawful := hdeclared.lawful d
    rw [htypes] at henclosed hlawful
    exact ⟨(hlawful (by simp)).name_nested howner, henclosed.exists_after howner⟩
  · rintro rfl
    exact hdeclared.enclosingChain_lexicalChain hdeclared.enclosed (fun _ => id) d hd

/-- In the package `p` a class whose method has an anonymous class among the arguments of another
one and two local classes of the same name, each with an anonymous class. -/
def crowded : SyntaxTree :=
  let anonymous (args members : List SyntaxTree) :=
    creation "T" args [braced .classBody members]
  let localClass := classOf "L" [methodOf "m" [] [statement (anonymous [] [])]]
  let outer := anonymous [anonymous [] []] [methodOf "m" [] [statement (anonymous [] [])]]
  fileOf [packageOf "p", classOf "C" [methodOf "m" [] [statement outer, localClass, localClass]]]

theorem consistentNames_ofTree_crowded :
    crowded.NamesProper ∧ (ofTree "C.java" false crowded).types.map (·.name) =
        ["p.C$1", "p.C$2$1", "p.C$2", "p.C$L$1", "p.C$L", "p.C$L$2", "p.C$L", "p.C"] ∧
      (ofTree "C.java" false crowded).bodyTypes =
        ["p.C$2$1", "p.C$L$1", "p.C$L$2", "p.C$2", "p.C$1"] ∧
      (ofTree "C.java" false crowded).ConsistentNames := by
  have hproper : crowded.NamesProper := ⟨by decide +kernel, by decide +kernel⟩
  refine ⟨hproper, by decide +kernel, by decide +kernel, ?_⟩
  exact consistentNames_ofTree hproper "C.java" false

end CompilationUnit

end JavaCallGraph
