import JavaCallGraph.Proofs.LoweredTypes
import JavaCallGraph.Proofs.SourceNodes

/-!
# Erased and generic types of methods

A method has its types twice: erased in its signature, and generic beside it. Methods are made from
library texts, from declarations, for enums and for classes without a constructor, and each time the
erased types are the descriptors of the generic ones. A varargs method has a last parameter, which
is an array. So whatever overload selection looks up for an argument is there.
-/

namespace JavaCallGraph

/-! ### Coherent methods -/

structure Method.Coherent (m : Method) : Prop where
  params : m.signature.params = m.params.map StaticType.desc
  ret : m.signature.ret = m.ret.desc
  varargs : m.isVarargs → ∃ last element, m.params.getLast? = some last ∧
    last.desc = .array element

theorem StaticType.exists_element?_substitute {t : StaticType} {element : Descriptor}
    (h : t.desc = .array element) (bindings : Bindings) :
    ∃ e, (t.substitute bindings).element? = some e := by
  obtain ⟨desc, args⟩ := t
  cases h
  exact ⟨_, rfl⟩

namespace Method

variable {m : Method}

/-- What the argument at place `i` of `count` arguments is held against. Before the last parameter
of a varargs method that is the parameter at its place. From there on it is an element of the last
parameter, and the whole array if there are as many arguments as parameters. -/
inductive HeldAgainst (m : Method) (bindings : Bindings) (count i : Nat) : List Descriptor → Prop
  | param {param : StaticType} (hplace : m.isVarargs → i + 1 < m.params.length)
    (hparam : m.params[i]? = some param) :
    HeldAgainst m bindings count i [(param.substitute bindings).desc]
  | element {last element : StaticType} (hvarargs : m.isVarargs) (hplace : m.params.length ≤ i + 1)
    (hlast : m.params.getLast? = some last)
    (helement : (last.substitute bindings).element? = some element) :
    HeldAgainst m bindings count i
      ((if count = m.params.length then [(last.substitute bindings).desc] else []) ++
        [element.desc])

theorem HeldAgainst.accepts_eq {bindings : Bindings} {count i : Nat} {targets : List Descriptor}
    (h : m.HeldAgainst bindings count i targets) (hierarchy : Hierarchy)
    (arg : Option StaticType) :
    m.accepts hierarchy bindings count i arg = targets.any (hierarchy.fits arg) := by
  unfold accepts
  cases h with
  | param hplace hparam =>
    rw [if_neg, hparam]
    · simp
    · simp only [Bool.and_eq_true, decide_eq_true_eq, not_and]
      intro hvarargs
      have := hplace hvarargs
      omega
  | element hvarargs hplace hlast helement =>
    have hpast : m.params.length - 1 ≤ i := by omega
    rw [if_pos (by simp [hvarargs, hpast]), hlast]
    dsimp only
    rw [helement]
    by_cases hcount : count = m.params.length
    · simp [hcount]
    · simp [hcount]

/-- No lookup of a parameter fails for as many arguments as the method takes. -/
theorem Coherent.exists_heldAgainst (hm : m.Coherent) {count i : Nat}
    (hcount : m.arityMatches count) (hi : i < count) (bindings : Bindings) :
    ∃ targets, m.HeldAgainst bindings count i targets := by
  have harity : m.arity = m.params.length := by rw [arity, hm.params, List.length_map]
  by_cases hpast : m.isVarargs ∧ m.params.length ≤ i + 1
  · obtain ⟨hvarargs, hplace⟩ := hpast
    obtain ⟨last, element, hlast, harray⟩ := hm.varargs hvarargs
    obtain ⟨e, he⟩ := StaticType.exists_element?_substitute harray bindings
    exact ⟨_, .element hvarargs hplace hlast he⟩
  · have hplace : m.isVarargs → i + 1 < m.params.length := by
      intro hvarargs
      have := hpast
      simp only [hvarargs, true_and] at this
      omega
    have hlt : i < m.params.length := by
      by_cases hvarargs : m.isVarargs
      · exact Nat.lt_of_succ_lt (hplace hvarargs)
      · rw [arityMatches, if_neg hvarargs, beq_iff_eq, harity] at hcount
        exact hcount ▸ hi
    exact ⟨_, .param hplace (List.getElem?_eq_getElem hlt)⟩

/-- A call is applicable if every argument fits something that it is held against. -/
theorem Coherent.applicable_iff (hm : m.Coherent) {args : ArgTypes}
    (hcount : m.arityMatches args.length) (h : Hierarchy) (bindings : Bindings) :
    m.applicable h args bindings ↔ ∀ i arg targets, args[i]? = some arg →
      m.HeldAgainst bindings args.length i targets → targets.any (h.fits arg) := by
  simp only [applicable, List.all_eq_true, Prod.forall, List.mk_mem_zipIdx_iff_getElem?]
  constructor
  · intro haccepts i arg targets harg htargets
    rw [← htargets.accepts_eq h arg]
    exact haccepts arg i harg
  · intro hfits arg i harg
    obtain ⟨hi, -⟩ := List.getElem?_eq_some_iff.mp harg
    obtain ⟨targets, htargets⟩ := hm.exists_heldAgainst hcount hi bindings
    rw [htargets.accepts_eq h arg]
    exact hfits i arg targets harg htargets

/-! ### Where methods are made -/

theorem coherent_defaultConstructor (type : String) : (defaultConstructor type).Coherent :=
  ⟨rfl, rfl, fun h => by cases h⟩

theorem coherent_of_mem_ofEnum {type : String} (hm : m ∈ ofEnum type) : m.Coherent := by
  simp only [ofEnum, List.mem_cons, List.not_mem_nil, or_false] at hm
  rcases hm with rfl | rfl
  · exact ⟨rfl, rfl, fun h => by cases h⟩
  · exact ⟨rfl, rfl, fun h => by cases h⟩

end Method

namespace MemberText

/-- A parameter that is written with dots is an array. -/
theorem array_of_parseParam {scope : List String} {s : List Char} {type : StaticType}
    (h : parseParam scope s = .ok (type, true)) : ∃ element, type.desc = .array element := by
  unfold parseParam at h
  split at h
  · split at h
    · cases h
    · cases h
      exact ⟨_, rfl⟩
  · split at h
    · cases h
    · cases h

theorem coherent_of_parseMethod {owner text : String} {kind : TypeKind} {scope : List String}
    {m : Method} (h : parseMethod owner kind scope text = .ok m) : m.Coherent := by
  unfold parseMethod at h
  obtain ⟨⟨typeParamTexts, rest⟩, -, h⟩ := bind_eq_ok_iff.mp h
  obtain ⟨typeParams, -, h⟩ := bind_eq_ok_iff.mp h
  obtain ⟨⟨retText, name, paramsText⟩, -, h⟩ := bind_eq_ok_iff.mp h
  obtain ⟨parsed, hparsed, h⟩ := bind_eq_ok_iff.mp h
  have hvarargs : (parsed.getLast?.map (·.2)).getD false = true →
      ∃ last element, (parsed.map (·.1)).getLast? = some last ∧ last.desc = .array element := by
    intro hlast
    cases hp : parsed.getLast? with
    | none => simp [hp] at hlast
    | some last =>
      obtain ⟨type, spread⟩ := last
      have hspread : spread = true := by simpa [hp] using hlast
      obtain ⟨s, -, hs⟩ := exists_of_mapM_eq_ok hparsed _ (List.mem_of_getLast? hp)
      obtain ⟨element, helement⟩ := array_of_parseParam (hspread ▸ hs)
      exact ⟨type, element, by simp [List.getLast?_map, hp], helement⟩
  dsimp only at h
  split at h
  · split at h
    · cases h
    · cases h
      exact ⟨rfl, rfl, hvarargs⟩
  · obtain ⟨ret, -, h⟩ := bind_eq_ok_iff.mp h
    cases h
    exact ⟨rfl, rfl, hvarargs⟩

end MemberText

theorem Library.coherent_of_mem_nodes {library : Library} {nodes : List TypeNode}
    (h : library.nodes = .ok nodes) {node : TypeNode} (hnode : node ∈ nodes) :
    ∀ m ∈ node.methods, m.Coherent := by
  obtain ⟨name, t, -, htoNode⟩ := of_mem_nodes h hnode
  obtain ⟨-, -, hmethods⟩ := LibraryType.of_toNode htoNode
  intro m hm
  obtain ⟨text, -, htext⟩ := exists_of_mapM_eq_ok hmethods m hm
  exact MemberText.coherent_of_parseMethod htext

/-- A type with brackets is bound to an array. -/
theorem UnitScope.array_bind {scope : UnitScope} {names : TypeNames} {current : Option String}
    {vars : List String} {t : TypeRef} (h : 0 < t.dims) :
    ∃ element, (scope.bind names current vars t).desc = .array element := by
  obtain ⟨name, args, dims⟩ := t
  obtain ⟨rank, rfl⟩ := Nat.exists_eq_add_of_lt h
  rw [UnitScope.bind, Nat.zero_add]
  exact ⟨_, rfl⟩

theorem TypeDecl.coherent_method (d : TypeDecl) {bind : List String → TypeRef → StaticType}
    (hbind : ∀ vars t, 0 < t.dims → ∃ element, (bind vars t).desc = .array element)
    (vars : List String) {m : MethodDecl} (hm : m.Spread) :
    (d.method bind vars m).Coherent where
  params := (d.ownedBy_method bind vars m).params
  ret := by
    unfold TypeDecl.method
    dsimp only
    cases m.kind with
    | constructor => rfl
    | method => rfl
  varargs := by
    intro hvarargs
    change m.params.getLast?.any (·.isVarargs) = true at hvarargs
    obtain ⟨p, hp, hspread⟩ := (Option.any_eq_true _ _).mp hvarargs
    obtain ⟨element, helement⟩ := hbind (vars ++ m.typeParams.map (·.name)) p.type
      (hm p (List.mem_of_getLast? hp) hspread)
    refine ⟨_, element, ?_, helement⟩
    simp [TypeDecl.method, List.getLast?_map, hp]

theorem SourceType.coherent_node {source : SourceType} (h : ∀ m ∈ source.decl.methods, m.Spread)
    (decls : Declarations) (names : TypeNames) (isInterface : String → Bool) :
    ∀ m ∈ (source.node decls names isInterface).methods, m.Coherent := by
  intro m hm
  rcases List.mem_append.mp hm with hm | hm
  · obtain ⟨declared, hdeclared, rfl⟩ := List.mem_map.mp hm
    exact TypeDecl.coherent_method _ (fun _ _ => UnitScope.array_bind) _ (h declared hdeclared)
  · split at hm
    · exact Method.coherent_of_mem_ofEnum hm
    · cases hm

theorem Tree.everywhere_of_forall {α : Type} {P : Tree α → Prop} (h : ∀ t, P t) (t : Tree α) :
    t.Everywhere P := by
  induction hsize : sizeOf t using Nat.strong_induction_on generalizing t with
  | _ size ih =>
    refine everywhere_iff.mpr ⟨h t, fun c hc => ih (sizeOf c) ?_ c rfl⟩
    cases t with
    | node token mark cs =>
      have hlt : sizeOf c < sizeOf cs := List.sizeOf_lt_of_mem hc
      simp only [node.sizeOf_spec] at hsize
      omega

theorem CompilationUnit.spread_ofTree (path : String) (hasErrors : Bool) (tree : SyntaxTree) :
    ∀ d ∈ (ofTree path hasErrors tree).types, ∀ m ∈ d.methods, m.Spread := by
  obtain ⟨s, hdeclared, -⟩ := exists_declared_ofTree ⟨fun _ => True, fun _ => True⟩
    (tree.everywhere_of_forall fun _ _ => trivial) (fun _ _ _ _ _ => trivial) path hasErrors
  exact fun d hd => (hdeclared.lawful d hd).spread

/-! ### Methods of a program -/

theorem Catalog.lists_of_method? {h : Hierarchy} {s : Signature} {m : Method}
    (hm : (Catalog.build h).method? s = some m) : (Catalog.build h).Lists m := by
  rw [method?, build, buildFrom, MemberTable.getElem?_bySignature] at hm
  obtain ⟨type, -, hmem⟩ := List.mem_flatMap.mp (List.mem_of_find?_eq_some hm)
  exact ⟨type, List.mem_append.mp hmem⟩

namespace Program

open JavaCallGraph.Tree (phrase symbol typeName word under methodOf classOf fileOf)

variable {units : List CompilationUnit} {library : Library} {policy : CyclePolicy} {p : Program}

theorem coherent_of_mem_typeNodes {nodes : List TypeNode} (hnodes : library.nodes = .ok nodes)
    (hspread : ∀ u ∈ units, ∀ d ∈ u.types, ∀ m ∈ d.methods, m.Spread) {names : TypeNames} :
    ∀ node ∈ typeNodes nodes (.ofUnits units) names, ∀ m ∈ node.methods, m.Coherent := by
  intro node hnode
  rcases List.mem_append.mp hnode with hnode | hnode
  · exact Library.coherent_of_mem_nodes hnodes hnode
  · obtain ⟨source, hsource, rfl⟩ := List.mem_map.mp hnode
    have hcounts := Declarations.mem_firsts.mp (Declarations.mem_values_ofUnits.mp hsource)
    obtain ⟨u, hu, hdecl, -⟩ := Declarations.mem_listed.mp (List.mem_of_find?_eq_some hcounts)
    refine SourceType.coherent_node ?_ _ _ _
    exact hspread u (List.mem_of_getElem? hu) source.decl (List.mem_of_getElem? hdecl)

theorem coherent_of_lists (hb : build units library policy = .ok p)
    (hspread : ∀ u ∈ units, ∀ d ∈ u.types, ∀ m ∈ d.methods, m.Spread) {m : Method}
    (hm : (Catalog.build p.hierarchy).Lists m) : m.Coherent := by
  obtain ⟨nodes, hnodes, index, hindex, rfl⟩ := build_eq_ok_iff.mp hb
  obtain ⟨hierarchy, hhierarchy, rfl⟩ : ∃ hierarchy, Hierarchy.build _ policy = .ok hierarchy ∧
      (⟨hierarchy, .build hierarchy⟩ : TypeIndex) = index := by
    unfold TypeIndex.build at hindex
    split at hindex
    · next hierarchy hhierarchy =>
      cases hindex
      exact ⟨hierarchy, hhierarchy, rfl⟩
    · cases hindex
  obtain ⟨name, node, hnode, hm | ⟨-, rfl⟩⟩ := Catalog.provides_of_lists hm
  · rcases Hierarchy.of_get?_build hhierarchy hnode with
      ⟨-, hnone⟩ | ⟨given, hgiven, -, -, hmethods, -⟩
    · rw [hnone] at hm
      cases hm
    · exact coherent_of_mem_typeNodes hnodes hspread given hgiven m (hmethods ▸ hm)
  · exact Method.coherent_defaultConstructor node.name

/-- In a program of lowered files and a library, every method and constructor of the catalog has
the erasure of its generic types for its signature. Whatever overload selection holds an argument
against is there, if there are as many arguments as the method takes. -/
theorem erasure_of_build (hb : build units library policy = .ok p)
    (hunits : ∀ u ∈ units, ∃ path hasErrors tree, u = .ofTree path hasErrors tree) {m : Method}
    (hm : p.catalog.Lists m ∨ ∃ s, p.catalog.method? s = some m) :
    m.Coherent ∧ ∀ args : ArgTypes, m.arityMatches args.length → ∀ bindings : Bindings,
      (∀ i < args.length, ∃ targets, m.HeldAgainst bindings args.length i targets) ∧
      ∀ h : Hierarchy, m.applicable h args bindings ↔ ∀ i arg targets, args[i]? = some arg →
        m.HeldAgainst bindings args.length i targets → targets.any (h.fits arg) := by
  have hspread : ∀ u ∈ units, ∀ d ∈ u.types, ∀ m ∈ d.methods, m.Spread := by
    intro u hu
    obtain ⟨path, hasErrors, tree, rfl⟩ := hunits u hu
    exact CompilationUnit.spread_ofTree path hasErrors tree
  have hcoherent : m.Coherent := by
    rw [catalog_of_build hb] at hm
    refine coherent_of_lists hb hspread ?_
    rcases hm with hm | ⟨s, hm⟩
    · exact hm
    · exact Catalog.lists_of_method? hm
  refine ⟨hcoherent, fun args hcount bindings => ⟨fun i hi => ?_, fun h => ?_⟩⟩
  · exact hcoherent.exists_heldAgainst hcount hi bindings
  · exact hcoherent.applicable_iff hcount h bindings

def spreading : SyntaxTree :=
  fileOf [classOf "C" [methodOf "m"
    [phrase .formalParameter [under .type (typeName "T"), under .name (word "x")],
      phrase .spreadParameter [typeName "S", symbol "...",
        phrase .variableDeclarator [under .name (word "xs")]]] []]]

theorem erasure_of_build_spreading :
    ∃ p m, build [.ofTree "C.java" false spreading] {} .degrade = .ok p ∧ p.catalog.Lists m ∧
      m.isVarargs ∧ m.signature.params = [.reference "T", .array (.reference "S")] ∧
      m.arityMatches 3 ∧ m.Coherent ∧ ∀ i < 3, ∃ targets, m.HeldAgainst ∅ 3 i targets := by
  obtain ⟨p, hp, hcheck⟩ := exists_ok_of_any
    (build [.ofTree "C.java" false spreading] {} .degrade)
    (fun p => (p.catalog.methodsNamed "C" "m").any fun m => m.isVarargs &&
      m.signature.params == [.reference "T", .array (.reference "S")]) (by decide +kernel)
  obtain ⟨m, hm, hfacts⟩ := List.any_eq_true.mp hcheck
  obtain ⟨hvarargs, hparams⟩ := Bool.and_eq_true_iff.mp hfacts
  have hparams := eq_of_beq hparams
  have hlists := Catalog.lists_of_mem_methodsNamed hm
  have hcount : m.arityMatches 3 := by
    simp [Method.arityMatches, Method.arity, hvarargs, hparams]
  obtain ⟨hcoherent, hfound⟩ := erasure_of_build hp
    (fun u hu => ⟨_, _, _, List.mem_singleton.mp hu⟩) (.inl hlists)
  refine ⟨p, m, hp, hlists, hvarargs, hparams, hcount, hcoherent, ?_⟩
  exact (hfound [none, none, none] hcount ∅).1

end Program

end JavaCallGraph
