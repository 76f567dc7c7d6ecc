import JavaCallGraph.Error
import JavaCallGraph.Library.Builtin
import JavaCallGraph.Proofs.MemberCuts
import JavaCallGraph.Proofs.SignatureCodec

/-!
# Names in library descriptions

The texts of a library are read by runs of name characters, among which are no colons, semicolons
and parentheses. So the methods of a library type have well-formed signatures whatever the texts
are, as long as the name of the type can stand before a colon.
-/

namespace JavaCallGraph

namespace TypeText

variable {scope : List String} {s : List Char}

theorem endsBefore_of_takeName {name : Taken String s} (h : takeName s = some name) :
    EndsBefore ';' name.value := by
  unfold takeName at h
  split at h
  · cases h
  · next c cs hrun =>
    cases h
    refine endsBefore_ofList.mpr ⟨by simp, fun hmem => ?_⟩
    rw [← hrun] at hmem
    exact absurd (List.mem_takeWhile_imp hmem) (by decide)

theorem wellFormed_named (scope : List String) {name : String} (h : EndsBefore ';' name) :
    (named scope name).desc.WellFormed := by
  unfold named
  split
  · trivial
  · split
    · exact h
    · exact h

theorem wellFormed_takeBrackets {t : StaticType} (h : t.desc.WellFormed) (s : List Char) :
    (takeBrackets t s).1.desc.WellFormed := by
  fun_induction takeBrackets t s with
  | case1 => exact h
  | case2 t s rest _ ih => exact ih h

theorem wellFormed_of_takeType {t : Taken StaticType s} (h : takeType scope s = .ok t) :
    t.value.desc.WellFormed := by
  -- Only a bound of a wildcard is read by another call, and it is shorter.
  induction hn : s.length using Nat.strong_induction_on generalizing s t with
  | _ n ih =>
    rw [takeType] at h
    split at h
    · next rest hrest =>
      have hless := length_of_eat (by simp) hrest
      split at h
      · next bound hbound =>
        have hshorter := length_of_eat (by decide) hbound
        split at h
        · cases h
        · next inner hinner =>
          have hvalue := ih bound.length (by omega) hinner rfl
          cases h
          exact hvalue
      · split at h
        · split at h
          · cases h
          · cases h
            exact ⟨by decide, by decide⟩
        · cases h
          exact ⟨by decide, by decide⟩
    · split at h
      · cases h
      · next name hname =>
        have hnamed := wellFormed_named scope (endsBefore_of_takeName hname)
        split at h
        · cases h
          exact wellFormed_takeBrackets hnamed _
        · split at h
          · cases h
          · cases h
            apply wellFormed_takeBrackets
            exact hnamed

theorem wellFormed_of_parse {t : StaticType} (h : parse scope s = .ok t) : t.desc.WellFormed := by
  unfold parse at h
  split at h
  · cases h
  · next taken htaken =>
    split at h
    · cases h
      exact wellFormed_of_takeType htaken
    · cases h

end TypeText

namespace MemberText

variable {scope : List String} {s : List Char}

theorem wellFormed_of_parseType {t : StaticType} (h : parseType scope s = .ok t) :
    t.desc.WellFormed := by
  unfold parseType at h
  split at h
  · next hparse =>
    cases h
    exact TypeText.wellFormed_of_parse hparse
  · cases h

theorem wellFormed_of_parseParam {p : StaticType × Bool} (h : parseParam scope s = .ok p) :
    p.1.desc.WellFormed := by
  unfold parseParam at h
  split at h
  · split at h
    · cases h
    · next ht =>
      have helement := wellFormed_of_parseType ht
      cases h
      exact helement
  · split at h
    · cases h
    · next ht =>
      cases h
      exact wellFormed_of_parseType ht

theorem endsBefore_of_cutMethod {text : String} {ret name params : List Char}
    (h : cutMethod text s = .ok (ret, name, params)) : EndsBefore '(' (String.ofList name) := by
  obtain ⟨head, hhead⟩ := exists_cutHead_of_cutMethod h
  obtain ⟨front, hend, -, hname, -⟩ := cutHead_eq_ok.mp hhead
  exact endsBefore_ofList.mpr ⟨hname, fun hmem => absurd (hend.name _ hmem) (by decide)⟩

theorem wellFormed_of_parseMethod {owner text : String} {kind : TypeKind} {m : Method}
    (howner : EndsBefore ':' owner) (h : parseMethod owner kind scope text = .ok m) :
    m.signature.WellFormed := by
  unfold parseMethod at h
  obtain ⟨⟨typeParamTexts, rest⟩, -, h⟩ := bind_eq_ok_iff.mp h
  obtain ⟨typeParams, -, h⟩ := bind_eq_ok_iff.mp h
  obtain ⟨⟨retText, name, paramsText⟩, hcut, h⟩ := bind_eq_ok_iff.mp h
  obtain ⟨parsed, hparsed, h⟩ := bind_eq_ok_iff.mp h
  have hname := endsBefore_of_cutMethod hcut
  have hparams : ∀ d ∈ (parsed.map (·.1)).map (·.desc), d.WellFormed := by
    intro d hd
    rw [List.map_map] at hd
    obtain ⟨p, hp, rfl⟩ := List.mem_map.mp hd
    obtain ⟨part, -, hpart⟩ := exists_of_mapM_eq_ok hparsed p hp
    exact wellFormed_of_parseParam hpart
  dsimp only at h
  split at h
  · -- A constructor is read only if its name is the simple name of the type.
    split at h
    · cases h
    · next hsimple =>
      have hsimple : String.ofList name = simpleName owner := by simpa using hsimple
      rw [hsimple] at hname
      cases h
      exact ⟨howner, hname, hparams, trivial⟩
  · obtain ⟨ret, hret, h⟩ := bind_eq_ok_iff.mp h
    cases h
    exact ⟨howner, hname, hparams, wellFormed_of_parseType hret⟩

end MemberText

theorem LibraryType.of_toNode {t : LibraryType} {name : String} {node : TypeNode}
    (h : t.toNode name = .ok node) : node.name = name ∧ node.origin = .library ∧
      t.methods.mapM (MemberText.parseMethod name t.kind t.scope) = .ok node.methods := by
  unfold toNode at h
  obtain ⟨typeParams, -, h⟩ := bind_eq_ok_iff.mp h
  obtain ⟨superclass, -, h⟩ := bind_eq_ok_iff.mp h
  obtain ⟨interfaces, -, h⟩ := bind_eq_ok_iff.mp h
  obtain ⟨methods, hmethods, h⟩ := bind_eq_ok_iff.mp h
  obtain ⟨fields, -, h⟩ := bind_eq_ok_iff.mp h
  cases h
  -- Supertypes are added to the node; its name, its origin and its methods stay.
  refine List.foldlRecOn (motive := fun (node : TypeNode) => node.name = name ∧
    node.origin = .library ∧
    t.methods.mapM (MemberText.parseMethod name t.kind t.scope) = .ok node.methods) _ _ ?_
    fun node hnode type _ => ?_
  · unfold addSuperclass
    split
    · exact ⟨rfl, rfl, hmethods⟩
    · split
      · exact ⟨rfl, rfl, hmethods⟩
      · exact ⟨rfl, rfl, hmethods⟩
  · unfold addInterface
    split
    · exact hnode
    · exact hnode

theorem LibraryType.wellFormed_of_toNode {t : LibraryType} {name : String} {node : TypeNode}
    (hname : EndsBefore ':' name) (h : t.toNode name = .ok node) :
    node.name = name ∧ node.origin = .library ∧
      ∀ m ∈ node.methods, m.signature.WellFormed := by
  obtain ⟨hsame, horigin, hmethods⟩ := of_toNode h
  refine ⟨hsame, horigin, fun m hm => ?_⟩
  obtain ⟨text, -, htext⟩ := exists_of_mapM_eq_ok hmethods m hm
  exact MemberText.wellFormed_of_parseMethod hname htext

namespace Library

/-- A name whose bytes lack the one byte of a character does not contain that character. -/
theorem endsBefore_of_bytes {stop : Char} {byte : UInt8}
    (hstop : String.utf8EncodeChar stop = [byte]) {name : String} (hname : name ≠ "")
    (h : byte ∉ name.toByteArray.data.toList) : EndsBefore stop name := by
  refine ⟨hname, fun hmem => h ?_⟩
  rw [← String.utf8Encode_toList, List.utf8Encode, List.data_toByteArray]
  exact List.mem_flatMap.mpr ⟨stop, hmem, hstop ▸ List.mem_singleton_self byte⟩

def NamesReadable (library : Library) : Prop :=
  ∀ name ∈ library.types, EndsBefore ':' name ∧ EndsBefore ';' name

theorem of_mem_nodes {library : Library} {nodes : List TypeNode} (h : library.nodes = .ok nodes)
    {node : TypeNode} (hnode : node ∈ nodes) :
    ∃ (name : String) (t : LibraryType), library.types[name]? = some t ∧
      t.toNode name = .ok node := by
  unfold Library.nodes at h
  split at h
  · next found hfound =>
    cases h
    obtain ⟨⟨name, t⟩, hmem, ht⟩ := exists_of_mapM_eq_ok hfound node hnode
    refine ⟨name, t, Std.ExtTreeMap.mem_toList_iff_getElem?_eq_some.mp hmem, ?_⟩
    dsimp only at ht
    split at ht
    · next hnode' =>
      cases ht
      exact hnode'
    · cases ht
  · cases h

theorem NamesReadable.of_nodes {library : Library} (hlibrary : library.NamesReadable)
    {nodes : List TypeNode} (h : library.nodes = .ok nodes) :
    ∀ node ∈ nodes, EndsBefore ';' node.name ∧ node.origin = .library ∧
      ∀ m ∈ node.methods, m.signature.WellFormed := by
  intro node hnode
  obtain ⟨name, t, ht, hnode⟩ := of_mem_nodes h hnode
  have hname := hlibrary name (Std.ExtTreeMap.mem_iff_isSome_getElem?.mpr (by simp [ht]))
  obtain ⟨hsame, horigin, hmethods⟩ := LibraryType.wellFormed_of_toNode hname.1 hnode
  exact ⟨hsame ▸ hname.2, horigin, hmethods⟩

theorem namesReadable_builtin : builtin.NamesReadable := by
  intro name hname
  have hmem := List.contains_iff_mem.mp (Std.ExtTreeMap.mem_ofList.mp hname)
  -- The bytes of a literal are at hand; its characters would have to be decoded from them.
  have hbytes : ∀ name ∈ builtinTypes.map (·.1), name ≠ "" ∧
      58 ∉ name.toByteArray.data.toList ∧ 59 ∉ name.toByteArray.data.toList := by
    decide +kernel
  obtain ⟨hne, hcolon, hsemicolon⟩ := hbytes name hmem
  exact ⟨endsBefore_of_bytes (by decide) hne hcolon,
    endsBefore_of_bytes (by decide) hne hsemicolon⟩

end Library

end JavaCallGraph
