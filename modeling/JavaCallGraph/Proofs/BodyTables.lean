import JavaCallGraph.Proofs.SignatureClashes

/-!
# The tables of bodies

A program finds its bodies by their signatures, by the types that declare them and by the units
that they stand in. The declared methods of a type and the methods of its type node are matched by
their places alone. This module shows that the places agree, and that the two lists of signatures
divide up the table of bodies.
-/

namespace JavaCallGraph

/-! ### Signatures by their types -/

theorem getD_foldl_alter {α : Type} (key : α → String) (items : List α) (m : NameMap (List α))
    (name : String) :
    let listed := items.foldl
      (fun m a => m.alter (key a) fun listed? => some (listed?.getD [] ++ [a])) m
    listed[name]?.getD [] = m[name]?.getD [] ++ items.filter (key · = name) := by
  dsimp only
  induction items generalizing m with
  | nil => simp
  | cons a items ih =>
    rw [List.foldl_cons, ih, Std.ExtTreeMap.getElem?_alter]
    by_cases ha : key a = name
    · simp [ha]
    · simp [ha]

theorem BodyTable.getD_byType (bodies : BodyTable) (type : String) :
    bodies.byType[type]?.getD [] = bodies.keys.filter (·.declaring = type) := by
  rw [byType, Std.ExtTreeMap.foldl_eq_foldl_keys, getD_foldl_alter Signature.declaring]
  simp

namespace Program

variable {units : List CompilationUnit} {library : Library} {policy : CyclePolicy} {p : Program}
  {s : Signature} {body : Body}

theorem typeBodies_of_build (h : build units library policy = .ok p) (type : String) :
    p.typeBodies type = p.bodies.keys.filter (·.declaring = type) := by
  have hbyType : p.byType = p.bodies.byType := by
    obtain ⟨nodes, -, index, -, rfl⟩ := build_eq_ok_iff.mp h
    rfl
  rw [typeBodies, hbyType, BodyTable.getD_byType]

theorem mem_typeBodies (h : build units library policy = .ok p) {type : String} :
    s ∈ p.typeBodies type ↔ (p.body? s).isSome ∧ s.declaring = type := by
  rw [typeBodies_of_build h, List.mem_filter, Std.ExtTreeMap.mem_keys,
    Std.ExtTreeMap.mem_iff_isSome_getElem?, decide_eq_true_iff]
  rfl

theorem mem_map_fst_unitBodies {unit : Nat} :
    s ∈ (p.unitBodies unit).map Prod.fst ↔
      ∃ body, p.body? s = some body ∧ body.source.ref.unit = unit := by
  simp only [List.mem_map, Prod.exists, exists_and_right, exists_eq_right, mem_unitBodies]

/-! ### Places -/

theorem HasBody.source_eq {source : SourceType} (h : p.HasBody source s body) :
    body.source = source := by
  cases h with
  | declared => rfl
  | defaultConstructor => rfl
  | staticInit => rfl

theorem exists_hasBody_of_build (h : build units library policy = .ok p)
    (hbody : p.body? s = some body) :
    ∃ source ∈ Declarations.counting units, p.HasBody source s body := by
  obtain ⟨source, hsource, hfound⟩ := (body?_eq_some_iff h).mp hbody
  have hlisted := List.mem_reverse.mp (List.mem_of_find?_eq_some hfound)
  exact ⟨source, hsource, mem_implementations.mp hlisted⟩

theorem owns_of_mem_counting (h : build units library policy = .ok p) {source : SourceType}
    (hsource : source ∈ Declarations.counting units) : p.owns source.ref := by
  have hcounts : (Declarations.ofUnits units)[source.decl.name]? = some source :=
    Declarations.getElem?_ofUnits_eq_some_iff.mpr ⟨hsource, rfl⟩
  obtain ⟨u, hu, hdecl, -⟩ :=
    Declarations.mem_listed.mp (Declarations.of_getElem?_ofUnits hcounts).1
  obtain ⟨nodes, -, index, -, rfl⟩ := build_eq_ok_iff.mp h
  simp [owns, source?, hu, hdecl, hcounts]

theorem methodAt?_of_mem_counting (h : build units library policy = .ok p) {source : SourceType}
    (hsource : source ∈ Declarations.counting units) {i : Nat} {m : MethodDecl}
    (hm : source.decl.methods[i]? = some m) :
    p.methodAt? source.decl.name i = some (p.bound source m) := by
  obtain ⟨node, hnode, -, hmethods⟩ := get?_of_mem_counting h hsource
  have hi : i < (source.decl.methods.map (p.bound source)).length := by
    rw [List.length_map]
    exact (List.getElem?_eq_some_iff.mp hm).1
  have hplace : node.methods[i]? = some (p.bound source m) := by
    rw [hmethods, List.getElem?_append_left hi, List.getElem?_map, hm]
    rfl
  simp [methodAt?, hnode, hplace]

/-- What the tables of a program say of one another. -/
structure Aligned (p : Program) : Prop where
  /-- The body's declaration stands at its place, counts for its name and declares the signature. -/
  placed : ∀ s body, p.body? s = some body →
    (∃ u, p.StandsIn body u) ∧ p.owns body.source.ref ∧ body.source.decl.name = s.declaring
  /-- A declared body stands at the place of the method that has the signature. -/
  declared : ∀ s body i, p.body? s = some body → body.kind = .declared i →
    (∃ m, body.source.decl.methods[i]? = some m ∧ m.body.isSome) ∧
      ∃ method, p.methodAt? body.source.decl.name i = some method ∧ method.signature = s
  units : ∀ s, (p.body? s).isSome ↔ ∃! unit, s ∈ (p.unitBodies unit).map Prod.fst
  types : ∀ s, (p.body? s).isSome ↔ ∃! type, s ∈ p.typeBodies type
  unitsSorted : ∀ unit, ((p.unitBodies unit).map Prod.fst).Pairwise (compare · · = .lt)
  typesSorted : ∀ type, (p.typeBodies type).Pairwise (compare · · = .lt)

/-- The tables of a built program agree, whatever the units and the library are. -/
theorem body_tables_aligned (h : build units library policy = .ok p) : p.Aligned where
  placed s body hbody := by
    obtain ⟨source, hsource, hhas⟩ := exists_hasBody_of_build h hbody
    refine ⟨exists_standsIn_of_build h hbody, ?_⟩
    rw [hhas.source_eq]
    exact ⟨owns_of_mem_counting h hsource, hhas.declaring_eq.symm⟩
  declared s body i hbody hkind := by
    obtain ⟨source, hsource, hhas⟩ := exists_hasBody_of_build h hbody
    cases hhas with
    | @declared j m hm hmbody =>
      obtain rfl := BodyKind.declared.inj hkind
      exact ⟨⟨m, hm, hmbody⟩, p.bound source m, methodAt?_of_mem_counting h hsource hm, rfl⟩
    | defaultConstructor => cases hkind
    | staticInit => cases hkind
  units s := by
    rw [Option.isSome_iff_exists]
    simp only [mem_map_fst_unitBodies]
    constructor
    · rintro ⟨body, hbody⟩
      refine ⟨body.source.ref.unit, ⟨body, hbody, rfl⟩, ?_⟩
      rintro unit ⟨other, hother, rfl⟩
      rw [Option.some.inj (hother.symm.trans hbody)]
    · rintro ⟨unit, ⟨body, hbody, -⟩, -⟩
      exact ⟨body, hbody⟩
  types s := by
    simp only [mem_typeBodies h]
    constructor
    · intro hbody
      exact ⟨s.declaring, ⟨hbody, rfl⟩, fun type htype => htype.2.symm⟩
    · rintro ⟨type, ⟨hbody, -⟩, -⟩
      exact hbody
  unitsSorted unit := by
    rw [List.pairwise_map]
    exact Std.ExtTreeMap.ordered_keys_toList.filter _
  typesSorted type := by
    rw [typeBodies_of_build h]
    exact Std.ExtTreeMap.ordered_keys.filter _

def declaredAgain : CompilationUnit :=
  .plain [.plain "A" none [.plain "m" [] "void" []],
    { TypeDecl.plain "E" none [.plain "m" [] "void" []] with kind := .enum }]

def overloadedBody : Signature := ⟨"p.A", "m", [.reference "p.B"], .void⟩

/-- The method with a parameter is the fourth one of the class, and the second declaration of the
class does not count. -/
theorem body_tables_aligned_redeclared :
    ∃ p, build [overloads, declaredAgain] {} .degrade = .ok p ∧ ¬ p.owns ⟨1, 0⟩ ∧
      ∃ body, p.body? overloadedBody = some body ∧ p.owns body.source.ref ∧
        ∃ method, p.methodAt? "p.A" 3 = some method ∧ method.signature = overloadedBody := by
  obtain ⟨p, hp, hcheck⟩ := exists_ok_of_any (build [overloads, declaredAgain] {} .degrade)
    (fun p => !p.owns ⟨1, 0⟩ && (p.body? overloadedBody).any (·.kind == .declared 3))
    (by decide +kernel)
  obtain ⟨howns, hfound⟩ := Bool.and_eq_true_iff.mp hcheck
  obtain ⟨body, hbody, hkind⟩ := (Option.any_eq_true _ _).mp hfound
  have haligned := body_tables_aligned hp
  obtain ⟨-, hcounts, hname⟩ := haligned.placed overloadedBody body hbody
  obtain ⟨-, hmethod⟩ := haligned.declared overloadedBody body 3 hbody (beq_iff_eq.mp hkind)
  rw [hname] at hmethod
  exact ⟨p, hp, by simpa using howns, body, hbody, hcounts, hmethod⟩

end Program

end JavaCallGraph
