import JavaCallGraph.Proofs.PlainClasses
import JavaCallGraph.Proofs.SourceNodes
import Mathlib.Algebra.GroupWithZero.Nat
import Mathlib.Data.List.Dedup
import Mathlib.Data.List.Nodup

/-!
# Bodies that share a signature

The bodies of a declaration are entered one after another under the signatures that they implement:
the declared methods and constructors, a default constructor and the static initializer. Signatures
of different types differ, so a body is lost exactly if a later body of its own declaration has the
same signature. Overloads do not get into each other's way. But a constructor is called like its
class and returns nothing, and so may a method be and do, with the same parameters.
-/

namespace JavaCallGraph

/-- What the body is declared as. A static initializer is neither a method nor a constructor. -/
def Body.declaredAs (b : Body) : Option MethodDeclKind :=
  match b.kind with
  | .declared i => b.source.decl.methods[i]?.map (·.kind)
  | .defaultConstructor => some .constructor
  | .staticInit => none

theorem zip_map_append {α β : Type} (items : List α) (f : α → β) (more : List β) :
    items.zip (items.map f ++ more) = items.map fun a => (a, f a) := by
  induction items with
  | nil => rfl
  | cons a items ih => simp [ih]

/-- The last entry of a key has no other one after it. -/
theorem find?_reverse_eq_some_iff {α β : Type} [DecidableEq α] {entries : List (α × β)} {a : α}
    {b : β} : entries.reverse.find? (·.1 = a) = some (a, b) ↔
      ∃ before after, entries = before ++ (a, b) :: after ∧ a ∉ after.map Prod.fst := by
  rw [List.find?_eq_some_iff_append]
  constructor
  · rintro ⟨-, after, before, heq, hafter⟩
    refine ⟨before.reverse, after.reverse, ?_, ?_⟩
    · rw [← entries.reverse_reverse, heq]
      simp
    · rw [List.map_reverse, List.mem_reverse, List.mem_map]
      rintro ⟨e, he, rfl⟩
      simpa using hafter e he
  · rintro ⟨before, after, rfl, hafter⟩
    refine ⟨by simp, after.reverse, before.reverse, by simp, fun e he => ?_⟩
    have hne : e.1 ≠ a := fun h =>
      hafter (List.mem_map.mpr ⟨e, List.mem_reverse.mp he, h⟩)
    simp [hne]

namespace Program

variable {units : List CompilationUnit} {library : Library} {policy : CyclePolicy} {p : Program}
  {source : SourceType} {s : Signature} {b c : Body}

/-! ### The bodies of a declaration -/

/-- The bodies of a declaration with the signatures that they implement, in the order in which they
are entered. -/
def implementations (p : Program) (source : SourceType) : List (Signature × Body) :=
  (source.decl.methods.zipIdx.filter (·.1.body.isSome)).map
      (fun e => ((p.bound source e.1).signature, ⟨source, .declared e.2⟩)) ++
    (if source.decl.hasDefaultConstructor then
      [(.constructor source.decl.name [], ⟨source, .defaultConstructor⟩)]
    else []) ++
    if source.decl.hasStaticInit then [(.staticInit source.decl.name, ⟨source, .staticInit⟩)]
    else []

inductive HasBody (p : Program) (source : SourceType) : Signature → Body → Prop where
  | declared {i : Nat} {m : MethodDecl} (hm : source.decl.methods[i]? = some m)
      (hbody : m.body.isSome) :
      HasBody p source (p.bound source m).signature ⟨source, .declared i⟩
  | defaultConstructor (h : source.decl.hasDefaultConstructor) :
      HasBody p source (.constructor source.decl.name []) ⟨source, .defaultConstructor⟩
  | staticInit (h : source.decl.hasStaticInit) :
      HasBody p source (.staticInit source.decl.name) ⟨source, .staticInit⟩

theorem mem_implementations : (s, b) ∈ p.implementations source ↔ p.HasBody source s b := by
  simp only [implementations, List.mem_append, List.mem_map, List.mem_filter, Prod.exists,
    List.mk_mem_zipIdx_iff_getElem?, List.mem_ite_nil_right, List.mem_singleton, Prod.mk.injEq]
  constructor
  · rintro ((⟨m, i, ⟨hm, hbody⟩, rfl, rfl⟩ | ⟨hdefault, rfl, rfl⟩) | ⟨hstatic, rfl, rfl⟩)
    · exact .declared hm hbody
    · exact .defaultConstructor hdefault
    · exact .staticInit hstatic
  · rintro (⟨hm, hbody⟩ | hdefault | hstatic)
    · exact .inl (.inl ⟨_, _, ⟨hm, hbody⟩, rfl, rfl⟩)
    · exact .inl (.inr ⟨hdefault, rfl, rfl⟩)
    · exact .inr ⟨hstatic, rfl, rfl⟩

theorem HasBody.declaring_eq (h : p.HasBody source s b) :
    s.declaring = source.decl.name := by
  cases h with
  | declared => exact (TypeDecl.ownedBy_method _ _ _ _).1
  | defaultConstructor => rfl
  | staticInit => rfl

/-- The bodies of a declaration differ in their kinds. -/
theorem nodup_implementations (p : Program) (source : SourceType) :
    (p.implementations source).Nodup := by
  apply List.Nodup.of_map (·.2.kind)
  have hplaces : ((source.decl.methods.zipIdx.filter (·.1.body.isSome)).map Prod.snd).Nodup := by
    refine List.Nodup.sublist (List.filter_sublist.map Prod.snd) ?_
    rw [List.zipIdx_map_snd]
    exact List.nodup_range'
  have hdeclared := hplaces.map fun i j (h : BodyKind.declared i = .declared j) =>
    BodyKind.declared.inj h
  rw [List.map_map] at hdeclared
  unfold implementations
  rw [List.map_append, List.map_append, List.map_map]
  refine List.nodup_append.mpr ⟨List.nodup_append.mpr ⟨hdeclared, ?_, ?_⟩, ?_, ?_⟩
  · split <;> simp
  · split <;> grind
  · split <;> simp
  · split <;> split <;> grind

/-! ### Entering them -/

theorem addType_eq (h : build units library policy = .ok p)
    (hsource : source ∈ Declarations.counting units) (bodies : BodyTable) :
    bodies.addType p.index source =
      (p.implementations source).foldl (fun table e => table.insert e.1 e.2) bodies := by
  obtain ⟨node, hnode, -, hmethods⟩ := get?_of_mem_counting h hsource
  have hconstructors := find?_constructors h hsource
  rw [hierarchy] at hnode
  rw [catalog] at hconstructors
  unfold BodyTable.addType implementations
  simp only [hnode, hconstructors, hmethods, zip_map_append, List.zipIdx_map, List.foldl_append,
    List.foldl_map, List.foldl_filter]
  cases source.decl.hasDefaultConstructor <;> cases source.decl.hasStaticInit <;> rfl

/-- The table is filled with the bodies of all declarations that count. -/
theorem bodies_eq (h : build units library policy = .ok p) :
    p.bodies = ((Declarations.ofUnits units).values.flatMap p.implementations).foldl
      (fun table e => table.insert e.1 e.2) ∅ := by
  have hbodies : p.bodies = .build p.index (.ofUnits units) := by
    obtain ⟨nodes, -, index, -, rfl⟩ := build_eq_ok_iff.mp h
    rfl
  rw [hbodies, BodyTable.build, Std.ExtTreeMap.foldl_eq_foldl_toList, values_eq_map_toList,
    List.foldl_flatMap, List.foldl_map]
  apply List.foldl_ext
  intro bodies entry hentry
  apply addType_eq h
  rw [← Declarations.mem_values_ofUnits, values_eq_map_toList]
  exact List.mem_map_of_mem hentry

/-- The last body of a declaration that has the signature implements it. -/
theorem body?_eq_some_iff (h : build units library policy = .ok p) :
    p.body? s = some b ↔ ∃ source ∈ Declarations.counting units,
      (p.implementations source).reverse.find? (·.1 = s) = some (s, b) := by
  have hdeclaring {source : SourceType} {e : Signature × Body}
      (he : (p.implementations source).reverse.find? (·.1 = s) = some e) :
      e.1 = s ∧ source.decl.name = s.declaring := by
    have hkey : e.1 = s := by simpa using List.find?_some he
    have hmem := List.mem_reverse.mp (List.mem_of_find?_eq_some he)
    exact ⟨hkey, hkey ▸ (mem_implementations.mp hmem).declaring_eq.symm⟩
  rw [body?, bodies_eq h, getElem?_foldl_insert Prod.fst Prod.snd, List.reverse_flatMap,
    List.find?_flatMap]
  constructor
  · intro hfound
    obtain ⟨e, he, rfl⟩ := Option.map_eq_some_iff.mp hfound
    obtain ⟨source, hsource, he⟩ := List.exists_of_findSome?_eq_some he
    rw [List.mem_reverse, Declarations.mem_values_ofUnits] at hsource
    obtain ⟨rfl, -⟩ := hdeclaring he
    exact ⟨source, hsource, he⟩
  · rintro ⟨source, hsource, hfound⟩
    have hlisted : source ∈ (Declarations.ofUnits units).values.reverse :=
      List.mem_reverse.mpr (Declarations.mem_values_ofUnits.mpr hsource)
    obtain ⟨e, he⟩ : ∃ e, (Declarations.ofUnits units).values.reverse.findSome? (fun source =>
        (p.implementations source).reverse.find? (·.1 = s)) = some e := by
      rw [← Option.isSome_iff_exists, List.findSome?_isSome_iff]
      exact ⟨source, hlisted, by rw [hfound, Option.isSome_some]⟩
    simp only [Function.comp_apply, he]
    obtain ⟨other, hother, he⟩ := List.exists_of_findSome?_eq_some he
    rw [List.mem_reverse, Declarations.mem_values_ofUnits] at hother
    -- Only one declaration that counts bears the name of the signature's type.
    have hsame := Declarations.getElem?_ofUnits_eq_some_iff.mpr ⟨hother, (hdeclaring he).2⟩
    rw [Declarations.getElem?_ofUnits_eq_some_iff.mpr ⟨hsource, (hdeclaring hfound).2⟩] at hsame
    obtain rfl := Option.some.inj hsame
    rw [Option.some.inj (he.symm.trans hfound), Option.map_some]

theorem mem_bodies_iff (h : build units library policy = .ok p) :
    s ∈ p.bodies ↔ ∃ source ∈ Declarations.counting units,
      s ∈ (p.implementations source).map Prod.fst := by
  rw [Std.ExtTreeMap.mem_iff_isSome_getElem?, Option.isSome_iff_exists]
  constructor
  · rintro ⟨b, hb⟩
    obtain ⟨source, hsource, hfound⟩ := (body?_eq_some_iff h).mp hb
    have hmem := List.mem_reverse.mp (List.mem_of_find?_eq_some hfound)
    exact ⟨source, hsource, List.mem_map_of_mem hmem⟩
  · rintro ⟨source, hsource, hs⟩
    obtain ⟨e, he, rfl⟩ := List.mem_map.mp hs
    obtain ⟨last, hlast⟩ : ∃ last,
        (p.implementations source).reverse.find? (·.1 = e.1) = some last := by
      rw [← Option.isSome_iff_exists, List.find?_isSome]
      exact ⟨e, List.mem_reverse.mpr he, decide_eq_true rfl⟩
    have hkey : last.1 = e.1 := by simpa using List.find?_some hlast
    exact ⟨last.2, (body?_eq_some_iff h).mpr ⟨source, hsource, hkey ▸ hlast⟩⟩

/-- Every signature counts once. -/
theorem bodyCount_eq (h : build units library policy = .ok p) :
    p.bodyCount = ((Declarations.counting units).map fun source =>
      ((p.implementations source).map Prod.fst).dedup.length).sum := by
  rw [bodyCount, ← Std.ExtTreeMap.length_keys, ← List.length_flatMap]
  apply List.Perm.length_eq
  refine (List.perm_ext_iff_of_nodup Std.ExtTreeMap.nodup_keys ?_).mpr fun s => ?_
  · refine List.nodup_flatMap.mpr ⟨fun source _ => List.nodup_dedup _, ?_⟩
    refine (Declarations.pairwise_firsts _).imp fun {source other} hne s hs hs' => hne ?_
    obtain ⟨e, he, rfl⟩ := List.mem_map.mp (List.mem_dedup.mp hs)
    obtain ⟨e', he', heq⟩ := List.mem_map.mp (List.mem_dedup.mp hs')
    rw [← (mem_implementations.mp he).declaring_eq, ← heq]
    exact (mem_implementations.mp he').declaring_eq
  · simp only [Std.ExtTreeMap.mem_keys, mem_bodies_iff h, List.mem_flatMap, List.mem_dedup]

/-! ### Clashes -/

/-- Every body of the declarations that count is found by its signature, and none is left out of
the count. -/
structure KeepsBodies (p : Program) (units : List CompilationUnit) : Prop where
  found : ∀ source ∈ Declarations.counting units, ∀ e ∈ p.implementations source,
    p.body? e.1 = some e.2
  count : p.bodyCount =
    ((Declarations.counting units).map fun source => (p.implementations source).length).sum

theorem keepsBodies_iff (h : build units library policy = .ok p) :
    p.KeepsBodies units ↔ ∀ source ∈ Declarations.counting units,
      ((p.implementations source).map Prod.fst).Nodup := by
  constructor
  · intro hkeeps source hsource
    rw [List.nodup_map_iff_inj_on (nodup_implementations p source)]
    intro e he e' he' heq
    have hbody := hkeeps.found source hsource e he
    rw [heq, hkeeps.found source hsource e' he'] at hbody
    exact Prod.ext heq (Option.some.inj hbody).symm
  · intro hnodup
    refine ⟨fun source hsource e he => ?_, ?_⟩
    · refine (body?_eq_some_iff h).mpr ⟨source, hsource, find?_reverse_eq_some_iff.mpr ?_⟩
      obtain ⟨before, after, heq⟩ := List.append_of_mem he
      refine ⟨before, after, heq, ?_⟩
      have hsplit := hnodup source hsource
      rw [heq, List.map_append, List.map_cons] at hsplit
      exact (List.nodup_cons.mp (List.nodup_append.mp hsplit).2.1).1
    · rw [bodyCount_eq h]
      congr 1
      refine List.map_congr_left fun source hsource => ?_
      rw [(hnodup source hsource).dedup, List.length_map]

def OverloadsApart (p : Program) (source : SourceType) : Prop :=
  source.decl.methods.Pairwise fun m n => m.kind = n.kind →
    (p.bound source m).signature.name = (p.bound source n).signature.name →
    (p.bound source m).signature.params ≠ (p.bound source n).signature.params

instance (p : Program) (source : SourceType) : Decidable (p.OverloadsApart source) :=
  inferInstanceAs (Decidable (List.Pairwise _ _))

def KindsApart (p : Program) (source : SourceType) : Prop :=
  ∀ s b c, p.HasBody source s b → p.HasBody source s c → b.declaredAs = c.declaredAs

theorem OverloadsApart.index_eq (h : p.OverloadsApart source) {i j : Nat} {m n : MethodDecl}
    (hm : source.decl.methods[i]? = some m) (hn : source.decl.methods[j]? = some n)
    (hkind : m.kind = n.kind)
    (hsignature : (p.bound source m).signature = (p.bound source n).signature) : i = j := by
  obtain ⟨hi, rfl⟩ := List.getElem?_eq_some_iff.mp hm
  obtain ⟨hj, rfl⟩ := List.getElem?_eq_some_iff.mp hn
  have hpairs := List.pairwise_iff_getElem.mp h
  rcases Nat.lt_trichotomy i j with hlt | heq | hgt
  · exact absurd (congrArg Signature.params hsignature)
      (hpairs i j hi hj hlt hkind (congrArg Signature.name hsignature))
  · exact heq
  · exact absurd (congrArg Signature.params hsignature.symm)
      (hpairs j i hj hi hgt hkind.symm (congrArg Signature.name hsignature.symm))

theorem not_hasDefaultConstructor {d : TypeDecl} {i : Nat} {m : MethodDecl}
    (hm : d.methods[i]? = some m) (hkind : m.kind = .constructor) : ¬ d.hasDefaultConstructor := by
  intro h
  have hall := List.all_eq_true.mp (Bool.and_eq_true_iff.mp h).2 m (List.mem_of_getElem? hm)
  simp [hkind] at hall

/-- Apart from overloads, a body is known by its signature and what it is declared as. -/
theorem HasBody.unique (happart : p.OverloadsApart source) (hb : p.HasBody source s b)
    (hc : p.HasBody source s c) (hsame : b.declaredAs = c.declaredAs) : b = c := by
  generalize hs : s = t at hc
  cases hb with
  | declared hm =>
    cases hc with
    | declared hn =>
      simp only [Body.declaredAs, hm, hn, Option.map_some, Option.some.injEq] at hsame
      rw [happart.index_eq hm hn hsame hs]
    | defaultConstructor hdefault =>
      simp only [Body.declaredAs, hm, Option.map_some, Option.some.injEq] at hsame
      exact absurd hdefault (not_hasDefaultConstructor hm hsame)
    | staticInit => simp [Body.declaredAs, hm] at hsame
  | defaultConstructor hdefault =>
    cases hc with
    | declared hn =>
      simp only [Body.declaredAs, hn, Option.map_some, Option.some.injEq] at hsame
      exact absurd hdefault (not_hasDefaultConstructor hn hsame.symm)
    | defaultConstructor => rfl
    | staticInit => simp [Body.declaredAs] at hsame
  | staticInit =>
    cases hc with
    | declared hn => simp [Body.declaredAs, hn] at hsame
    | defaultConstructor => simp [Body.declaredAs] at hsame
    | staticInit => rfl

theorem nodup_iff_kindsApart (happart : p.OverloadsApart source) :
    ((p.implementations source).map Prod.fst).Nodup ↔ p.KindsApart source := by
  rw [List.nodup_map_iff_inj_on (nodup_implementations p source)]
  constructor
  · intro hinj s b c hb hc
    have heq := hinj (s, b) (mem_implementations.mpr hb) (s, c) (mem_implementations.mpr hc) rfl
    rw [(Prod.mk.inj heq).2]
  · rintro hkinds ⟨s, b⟩ hb ⟨_, c⟩ hc rfl
    have hb := mem_implementations.mp hb
    have hc := mem_implementations.mp hc
    rw [hb.unique happart hc (hkinds s b c hb hc)]

end Program

/-- No method is called like the constructors of the type or like its static initializer, nor are
those called alike. -/
def TypeDecl.NamesApart (d : TypeDecl) : Prop :=
  JavaCallGraph.simpleName d.name ≠ "<clinit>" ∧ ∀ m ∈ d.methods, m.kind = .method →
    m.name ≠ JavaCallGraph.simpleName d.name ∧ m.name ≠ "<clinit>"

instance (d : TypeDecl) : Decidable d.NamesApart := inferInstanceAs (Decidable (_ ∧ _))

namespace Program

variable {units : List CompilationUnit} {library : Library} {policy : CyclePolicy} {p : Program}
  {source : SourceType} {s : Signature} {b : Body}

/-- Where names are apart, they tell what a body is declared as. -/
theorem HasBody.declaredAs_eq (hnames : source.decl.NamesApart)
    (h : p.HasBody source s b) :
    b.declaredAs = if s.name = simpleName source.decl.name then some .constructor
      else if s.name = "<clinit>" then none else some .method := by
  cases h with
  | @declared i m hm hbody =>
    simp only [Body.declaredAs, hm, Option.map_some]
    cases hkind : m.kind with
    | constructor =>
      have hsignature : (p.bound source m).signature = _ :=
        TypeDecl.signature_method_constructor _ _ _ m hkind
      rw [hsignature]
      exact (if_pos rfl).symm
    | method =>
      have hname : (p.bound source m).signature.name = m.name :=
        TypeDecl.name_signature_method _ _ _ m hkind
      obtain ⟨htype, hinit⟩ := hnames.2 m (List.mem_of_getElem? hm) hkind
      rw [hname, if_neg htype, if_neg hinit]
  | defaultConstructor => exact (if_pos rfl).symm
  | staticInit => exact ((if_neg hnames.1.symm).trans (if_pos rfl)).symm

theorem kindsApart_of_namesApart (hnames : source.decl.NamesApart) : p.KindsApart source := by
  intro s b c hb hc
  rw [hb.declaredAs_eq hnames, hc.declaredAs_eq hnames]

/-- A signature leads to the last body that implements it, and signatures are counted. In a program
whose overloads are apart no body is lost exactly if bodies declared as different things have
different signatures, which they have wherever no method is called like its class. -/
theorem keeps_bodies_iff_kinds_apart (h : build units library policy = .ok p) :
    (∀ s b, p.body? s = some b ↔ ∃ source ∈ Declarations.counting units, ∃ before after,
      p.implementations source = before ++ (s, b) :: after ∧ s ∉ after.map Prod.fst) ∧
    p.bodyCount = ((Declarations.counting units).map fun source =>
      ((p.implementations source).map Prod.fst).dedup.length).sum ∧
    ((∀ source ∈ Declarations.counting units, p.OverloadsApart source) →
      (p.KeepsBodies units ↔ ∀ source ∈ Declarations.counting units, p.KindsApart source)) ∧
    ∀ source ∈ Declarations.counting units, source.decl.NamesApart → p.KindsApart source := by
  refine ⟨fun s b => ?_, bodyCount_eq h, fun happart => ?_, fun source _ => ?_⟩
  · rw [body?_eq_some_iff h]
    simp only [find?_reverse_eq_some_iff]
  · rw [keepsBodies_iff h]
    exact forall₂_congr fun source hsource => nodup_iff_kindsApart (happart source hsource)
  · exact kindsApart_of_namesApart

/-- A class with overloads of its constructor and of a method, with an abstract method and with a
static initializer, and a class without a constructor. -/
def overloads : CompilationUnit :=
  .plain [
    { TypeDecl.plain "A" none
        [(MethodDecl.plain "A" [] "void" []).asConstructor,
          (MethodDecl.plain "A" [("B", "b")] "void" []).asConstructor,
          .plain "m" [] "void" [], .plain "m" [("B", "b")] "void" [],
          (MethodDecl.plain "n" [] "void" []).withoutBody] with
      initializers := [⟨true, []⟩] },
    .plain "B" none [.plain "m" [] "void" []]]

theorem keeps_bodies_iff_kinds_apart_overloads :
    ∃ p, build [overloads] {} .degrade = .ok p ∧ p.KeepsBodies [overloads] ∧ p.bodyCount = 7 := by
  obtain ⟨p, hp, hcheck⟩ := exists_ok_of_any (build [overloads] {} .degrade)
    (fun p => (Declarations.counting [overloads]).all (fun source => p.OverloadsApart source) &&
      p.bodyCount == 7) (by decide +kernel)
  obtain ⟨happart, hcount⟩ := Bool.and_eq_true_iff.mp hcheck
  have hnames : ∀ source ∈ Declarations.counting [overloads], source.decl.NamesApart := by
    decide +kernel
  obtain ⟨-, -, hkeeps, hkinds⟩ := keeps_bodies_iff_kinds_apart hp
  refine ⟨p, hp, (hkeeps fun source hsource => ?_).mpr fun source hsource => ?_, ?_⟩
  · exact of_decide_eq_true (List.all_eq_true.mp happart source hsource)
  · exact hkinds source hsource (hnames source hsource)
  · exact beq_iff_eq.mp hcount

def namesakes : CompilationUnit :=
  .plain [.plain "A" none
    [(MethodDecl.plain "A" [] "void" []).asConstructor, .plain "A" [] "void" []]]

/-- Two bodies are declared, one is left. -/
theorem not_keepsBodies_namesakes :
    ∃ p, build [namesakes] {} .degrade = .ok p ∧
      (Declarations.counting [namesakes]).Forall p.OverloadsApart ∧
      ¬ p.KeepsBodies [namesakes] := by
  obtain ⟨p, hp, hcheck⟩ := exists_ok_of_any (build [namesakes] {} .degrade)
    (fun p => (Declarations.counting [namesakes]).all (fun source => p.OverloadsApart source) &&
      p.bodyCount != ((Declarations.counting [namesakes]).map fun source =>
        (p.implementations source).length).sum) (by decide +kernel)
  obtain ⟨happart, hcount⟩ := Bool.and_eq_true_iff.mp hcheck
  refine ⟨p, hp, List.forall_iff_forall_mem.mpr fun source hsource => ?_, fun hkeeps => ?_⟩
  · exact of_decide_eq_true (List.all_eq_true.mp happart source hsource)
  · exact bne_iff_ne.mp hcount hkeeps.count

end Program

end JavaCallGraph
