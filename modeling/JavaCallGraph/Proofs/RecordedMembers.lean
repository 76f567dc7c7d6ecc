import JavaCallGraph.Catalog
import JavaCallGraph.Proofs.CyclePolicies

/-!
# Recording members, supertypes first

The members of a type are made from those of its supertypes, which are therefore recorded first.
A built hierarchy has no cycle, so this comes to an end. A table in which every entry is what the
entries of the supertypes give rise to is determined by the hierarchy, and so the types can be
visited in any order.
-/

namespace JavaCallGraph

/-! ### Following supertypes -/

theorem Search.Settled.acc {next : String → List String} {finished : List String}
    (h : Settled next ∅ finished) {a : String} (ha : a ∈ finished) :
    Acc (fun b a => Leads next a b) a := by
  induction finished generalizing a with
  | nil => simp at ha
  | cons x finished ih =>
    rcases List.mem_cons.mp ha with rfl | ha
    · refine .intro a fun b hb => ?_
      rcases h.1 b hb with hfinished | hnoted
      · exact ih h.2 hfinished
      · simp [Noted] at hnoted
    · exact ih h.2 ha

namespace TypeTable

variable {table : TypeTable}

/-- Without cycles, every type finishes after its supertypes. -/
theorem settled_search (hclosed : table.Closed)
    (hacyclic : ∀ name, ¬ Relation.TransGen table.Extends name name) (roots : List String) :
    Search.Settled (fun name => (table.supertypes name).reverse) ∅
      (table.search roots).finished := by
  have hinv := inv_search hclosed roots
  have hempty : (table.search roots).cyclic = ∅ := by
    rw [Std.ExtTreeSet.eq_empty_iff_forall_not_mem]
    intro name hname
    have hcycle := hinv.cyclic name hname
    exact hacyclic name (Relation.TransGen.mono (fun _ _ hedge => leads_iff.mp hedge.1) _ _ hcycle)
  exact hempty ▸ hinv.settled

theorem wellFounded_extends (hclosed : table.Closed)
    (hacyclic : ∀ name, ¬ Relation.TransGen table.Extends name name) :
    WellFounded fun sup sub => table.Extends sub sup := by
  refine ⟨fun name => ?_⟩
  by_cases hname : name ∈ table
  · have hacc := (settled_search hclosed hacyclic table.keys).acc (mem_finished_search.mpr hname)
    exact Subrelation.accessible leads_iff.mpr hacc
  · exact .intro name fun sup hext => (hname hext.mem).elim

/-- Without cycles, no type comes twice in a row of supertypes. -/
theorem nodup_of_isChain (hacyclic : ∀ name, ¬ Relation.TransGen table.Extends name name)
    {names : List String} (h : names.IsChain table.Extends) : names.Nodup := by
  have hpairs : names.Pairwise (Relation.TransGen table.Extends) :=
    (h.imp fun _ _ => Relation.TransGen.single).pairwise
  refine hpairs.imp fun {a b} hab => ?_
  rintro rfl
  exact hacyclic a hab

end TypeTable

theorem Hierarchy.mem_nodes_iff {h : Hierarchy} {name : String} :
    name ∈ h.nodes ↔ ∃ node, h.get? name = some node := by
  rw [Std.ExtTreeMap.mem_iff_isSome_getElem?, Option.isSome_iff_exists]
  rfl

namespace MemberTable

variable {h : Hierarchy} {table other out : MemberTable} {name : String} {names : List String}
  {node : TypeNode}

/-! ### Tables that agree with themselves -/

theorem membersOf_congr (hsup : ∀ sup ∈ node.supertypes, table.get sup = other.get sup) :
    table.membersOf h node = other.membersOf h node := by
  have hclass : ∀ sup ∈ node.superclass.toList, table.get sup = other.get sup :=
    fun sup hmem => hsup sup (List.mem_append_left _ hmem)
  have hinterfaces : ∀ sup ∈ node.interfaces, table.get sup = other.get sup :=
    fun sup hmem => hsup sup (List.mem_append_right _ hmem)
  have hinheritance : table.inheritance h node = other.inheritance h node := by
    rw [inheritance_eq, inheritance_eq,
      List.flatMap_congr fun sup hmem => congrArg TypeMembers.methods (hclass sup hmem),
      List.flatMap_congr fun sup hmem => congrArg TypeMembers.methods (hinterfaces sup hmem)]
  have hfields := List.flatMap_congr fun sup hmem => congrArg TypeMembers.fields (hsup sup hmem)
  simp only [membersOf, hinheritance, hfields]

/-- Every entry is what the table gives for the node of that name, and all supertypes of the node
have entries. -/
def Sound (h : Hierarchy) (table : MemberTable) : Prop :=
  ∀ (name : String) (members : TypeMembers), table[name]? = some members →
    ∃ node, h.get? name = some node ∧ members = table.membersOf h node ∧
      ∀ sup ∈ node.supertypes, sup ∈ table

theorem sound_empty : Sound h ∅ := by
  intro name members hmembers
  simp at hmembers

theorem Sound.entry (htable : table.Sound h) (hname : name ∈ table) :
    ∃ node, h.get? name = some node ∧ table[name]? = some (table.membersOf h node) ∧
      ∀ sup ∈ node.supertypes, sup ∈ table := by
  obtain ⟨members, hmembers⟩ := Option.isSome_iff_exists.mp
    (Std.ExtTreeMap.mem_iff_isSome_getElem?.mp hname)
  obtain ⟨node, hnode, rfl, hsups⟩ := htable name members hmembers
  exact ⟨node, hnode, hmembers, hsups⟩

theorem Sound.mem (htable : table.Sound h) (hname : name ∈ table) : name ∈ h.nodes := by
  obtain ⟨node, hnode, -⟩ := htable.entry hname
  exact Hierarchy.mem_nodes_iff.mpr ⟨node, hnode⟩

theorem getElem?_add (hnode : h.get? name = some node) (key : String) :
    (table.add h name)[key]? =
      if name = key then some (table.membersOf h node) else table[key]? := by
  rw [add, hnode, Std.ExtTreeMap.getElem?_insert]
  simp only [Std.LawfulEqCmp.compare_eq_iff_eq]

theorem mem_add (hnode : h.get? name = some node) {key : String} :
    key ∈ table.add h name ↔ key = name ∨ key ∈ table := by
  rw [Std.ExtTreeMap.mem_iff_isSome_getElem?, getElem?_add hnode,
    Std.ExtTreeMap.mem_iff_isSome_getElem?]
  split
  · next hkey => simp [hkey]
  · next hkey => simp [Ne.symm hkey]

/-- Recording a type once more changes nothing. -/
theorem Sound.add_of_mem (htable : table.Sound h) (hname : name ∈ table) :
    table.add h name = table := by
  obtain ⟨node, hnode, hentry, -⟩ := htable.entry hname
  apply Std.ExtTreeMap.ext_getElem?
  intro key
  rw [getElem?_add hnode]
  split
  · next hkey => rw [← hkey, hentry]
  · rfl

/-- A type can be recorded when its supertypes are. -/
theorem Sound.add (htable : table.Sound h) (hnode : h.get? name = some node)
    (hsups : ∀ sup ∈ node.supertypes, sup ∈ table) : (table.add h name).Sound h := by
  by_cases hname : name ∈ table
  · rwa [htable.add_of_mem hname]
  · -- The new entry is for none of the supertypes that older entries were made from.
    have hcongr (n : TypeNode) (hn : ∀ sup ∈ n.supertypes, sup ∈ table) :
        table.membersOf h n = (table.add h name).membersOf h n := by
      refine membersOf_congr fun sup hsup => ?_
      have hne : name ≠ sup := fun heq => hname (heq ▸ hn sup hsup)
      rw [MemberTable.get, MemberTable.get, getElem?_add hnode, if_neg hne]
    intro key members hmembers
    rw [getElem?_add hnode] at hmembers
    split at hmembers
    · next hkey =>
      obtain rfl := Option.some.inj hmembers
      exact ⟨node, hkey ▸ hnode, hcongr node hsups,
        fun sup hsup => (mem_add hnode).mpr (.inr (hsups sup hsup))⟩
    · obtain ⟨n, hn, hentry, hin⟩ := htable key members hmembers
      exact ⟨n, hn, hentry.trans (hcongr n hin),
        fun sup hsup => (mem_add hnode).mpr (.inr (hin sup hsup))⟩

/-- The hierarchy determines what a table can record for a type. -/
theorem Sound.agree (hwf : WellFounded fun sup sub => h.nodes.Extends sub sup)
    (htable : table.Sound h) (hother : other.Sound h) (hname : name ∈ table)
    (hname' : name ∈ other) : table[name]? = other[name]? := by
  induction name using hwf.induction with
  | _ name ih =>
    obtain ⟨node, hnode, hentry, hin⟩ := htable.entry hname
    obtain ⟨node', hnode', hentry', hin'⟩ := hother.entry hname'
    obtain rfl : node = node' := Option.some.inj (hnode.symm.trans hnode')
    have hsups : table.membersOf h node = other.membersOf h node := by
      refine membersOf_congr fun sup hsup => ?_
      have hext : h.nodes.Extends name sup := TypeTable.extends_iff.mpr ⟨node, hnode, hsup⟩
      rw [MemberTable.get, MemberTable.get, ih sup hext (hin sup hsup) (hin' sup hsup)]
    rw [hentry, hentry', hsups]

def Complete (h : Hierarchy) (table : MemberTable) : Prop := ∀ name ∈ h.nodes, name ∈ table

theorem Sound.eq_of_complete (hwf : WellFounded fun sup sub => h.nodes.Extends sub sup)
    (htable : table.Sound h) (hall : table.Complete h) (hother : other.Sound h)
    (hall' : other.Complete h) : table = other := by
  apply Std.ExtTreeMap.ext_getElem?
  intro name
  by_cases hname : name ∈ h.nodes
  · exact htable.agree hwf hother (hall name hname) (hall' name hname)
  · rw [Std.ExtTreeMap.getElem?_eq_none (fun hin => hname (htable.mem hin)),
      Std.ExtTreeMap.getElem?_eq_none (fun hin => hname (hother.mem hin))]

/-! ### The table that a search fills -/

/-- Recording along a list in which every type comes before its supertypes, from its end. -/
theorem sound_foldr_add {finished : List String}
    (hsettled : Search.Settled (fun name => (h.nodes.supertypes name).reverse) ∅ finished)
    (hnames : ∀ name ∈ finished, name ∈ h.nodes) :
    (finished.foldr (fun name table => MemberTable.add h table name) ∅).Sound h ∧
      ∀ name ∈ finished,
        name ∈ finished.foldr (fun name table => MemberTable.add h table name) ∅ := by
  induction finished with
  | nil => exact ⟨sound_empty, by simp⟩
  | cons a finished ih =>
    obtain ⟨hsound, hmem⟩ := ih hsettled.2 fun name hname => hnames name (.tail a hname)
    obtain ⟨node, hnode⟩ := Hierarchy.mem_nodes_iff.mp (hnames a List.mem_cons_self)
    rw [List.foldr_cons]
    refine ⟨hsound.add hnode fun sup hsup => ?_, fun name hname => ?_⟩
    · have hext : h.nodes.Extends a sup := TypeTable.extends_iff.mpr ⟨node, hnode, hsup⟩
      rcases hsettled.1 sup (TypeTable.leads_iff.mpr hext) with hfinished | hnoted
      · exact hmem sup hfinished
      · simp [Search.Noted] at hnoted
    · rw [mem_add hnode]
      exact (List.mem_cons.mp hname).imp_right (hmem name)

theorem build_spec {nodes : List TypeNode} {policy : CyclePolicy}
    (hb : Hierarchy.build nodes policy = .ok h) {order : List String}
    (horder : order.Perm h.nodes.keys) :
    (build h order).Sound h ∧ (build h order).Complete h := by
  have hroots : ∀ name ∈ h.nodes.names, name ∈ order := fun name hname => by
    rw [horder.mem_iff, Std.ExtTreeMap.mem_keys]
    exact TypeTable.mem_names.mp hname
  have hfinished (name : String) :
      name ∈ (h.nodes.search order).finished ↔ name ∈ h.nodes := by
    rw [TypeTable.search, Search.mem_finished_all hroots, TypeTable.mem_names]
  have hsettled := TypeTable.settled_search (Hierarchy.closed_of_build hb)
    (Hierarchy.acyclic_of_build hb) order
  rw [build, Hierarchy.supertypesFirst, List.foldl_reverse]
  obtain ⟨hsound, hmem⟩ := sound_foldr_add hsettled fun name => (hfinished name).mp
  exact ⟨hsound, fun name hname => hmem name ((hfinished name).mpr hname)⟩

/-! ### Recording on demand -/

/-- Records the members of the listed types one after the other. A type that has an entry or no
node is passed over. For any other type its supertypes come first, in the same way. -/
inductive Records (h : Hierarchy) : MemberTable → List String → MemberTable → Prop
  | nil {table : MemberTable} : Records h table [] table
  | skip {table out : MemberTable} {name : String} {names : List String} :
      name ∈ table ∨ h.get? name = none → Records h table names out →
        Records h table (name :: names) out
  | record {table mid out : MemberTable} {name : String} {names : List String} {node : TypeNode} :
      name ∉ table → h.get? name = some node → Records h table node.supertypes mid →
        Records h (mid.add h name) names out → Records h table (name :: names) out

theorem Records.unique (hout : Records h table names out) (hother : Records h table names other) :
    out = other := by
  induction hout generalizing other with
  | nil =>
    cases hother
    rfl
  | skip hpass _ ih =>
    cases hother with
    | skip _ hrest => exact ih hrest
    | record hnew hnode _ _ => exact (hpass.elim hnew fun hnone => by simp [hnone] at hnode).elim
  | record hnew hnode _ _ ihsups ihrest =>
    cases hother with
    | skip hpass _ => exact (hpass.elim hnew fun hnone => by simp [hnone] at hnode).elim
    | record _ hnode' hsups hrest =>
      obtain rfl := Option.some.inj (hnode.symm.trans hnode')
      obtain rfl := ihsups hsups
      exact ihrest hrest

/-- Any list can be recorded if each of its types can be recorded before any list that can. -/
theorem exists_records_of_forall (hnames : ∀ name ∈ names, ∀ rest,
      (∀ table, ∃ out, Records h table rest out) →
        ∀ table, ∃ out, Records h table (name :: rest) out)
    (table : MemberTable) : ∃ out, Records h table names out := by
  induction names generalizing table with
  | nil => exact ⟨table, .nil⟩
  | cons name names ih =>
    exact hnames name List.mem_cons_self names
      (ih fun other hother => hnames other (.tail name hother)) table

theorem exists_records_cons (hwf : WellFounded fun sup sub => h.nodes.Extends sub sup)
    (name : String) (rest : List String) (hrest : ∀ table, ∃ out, Records h table rest out)
    (table : MemberTable) : ∃ out, Records h table (name :: rest) out := by
  induction name using hwf.induction generalizing rest table with
  | _ name ih =>
    by_cases hname : name ∈ table
    · obtain ⟨out, hout⟩ := hrest table
      exact ⟨out, .skip (.inl hname) hout⟩
    cases hnode : h.get? name with
    | none =>
      obtain ⟨out, hout⟩ := hrest table
      exact ⟨out, .skip (.inr hnode) hout⟩
    | some node =>
      obtain ⟨mid, hmid⟩ : ∃ mid, Records h table node.supertypes mid :=
        exists_records_of_forall (fun sup hsup =>
          ih sup (TypeTable.extends_iff.mpr ⟨node, hnode, hsup⟩)) table
      obtain ⟨out, hout⟩ := hrest (mid.add h name)
      exact ⟨out, .record hname hnode hmid hout⟩

theorem exists_records (hwf : WellFounded fun sup sub => h.nodes.Extends sub sup)
    (table : MemberTable) (names : List String) : ∃ out, Records h table names out :=
  exists_records_of_forall (fun name _ => exists_records_cons hwf name) table

/-- Every listed type has an entry afterwards, and what is recorded stays. -/
theorem Records.spec (hclosed : h.nodes.Closed) (hout : Records h table names out)
    (htable : table.Sound h) :
    out.Sound h ∧ (∀ name ∈ table, name ∈ out) ∧ ∀ name ∈ names, name ∈ h.nodes → name ∈ out := by
  induction hout with
  | nil => exact ⟨htable, fun name hname => hname, by simp⟩
  | @skip table out first names hpass _ ih =>
    obtain ⟨hsound, hkept, hlisted⟩ := ih htable
    refine ⟨hsound, hkept, fun name hname hin => ?_⟩
    rcases List.mem_cons.mp hname with rfl | hname
    · obtain ⟨node, hnode⟩ := Hierarchy.mem_nodes_iff.mp hin
      exact hkept name (hpass.resolve_right fun hnone => by simp [hnone] at hnode)
    · exact hlisted name hname hin
  | @record table mid out first names node hnew hnode _ _ ihsups ihrest =>
    obtain ⟨hmid, hkept, hsups⟩ := ihsups htable
    have hnodes : ∀ sup ∈ node.supertypes, sup ∈ mid := fun sup hsup =>
      hsups sup hsup (hclosed first sup (TypeTable.extends_iff.mpr ⟨node, hnode, hsup⟩))
    obtain ⟨hsound, hkept', hlisted⟩ := ihrest (hmid.add hnode hnodes)
    refine ⟨hsound, fun name hname => hkept' name ((mem_add hnode).mpr (.inr (hkept name hname))),
      fun name hname hin => ?_⟩
    rcases List.mem_cons.mp hname with rfl | hname
    · exact hkept' name ((mem_add hnode).mpr (.inl rfl))
    · exact hlisted name hname hin

theorem eq_build {nodes : List TypeNode} {policy : CyclePolicy}
    (hb : Hierarchy.build nodes policy = .ok h) (htable : table.Sound h)
    (hall : table.Complete h) : table = (Catalog.build h).members := by
  have hwf := TypeTable.wellFounded_extends (Hierarchy.closed_of_build hb)
    (Hierarchy.acyclic_of_build hb)
  obtain ⟨hbuild, hall'⟩ := build_spec hb (.refl h.nodes.keys)
  exact htable.eq_of_complete hwf hall hbuild hall'

theorem Records.eq_members {nodes : List TypeNode} {policy : CyclePolicy}
    (hb : Hierarchy.build nodes policy = .ok h) {order : List String}
    (horder : order.Perm h.nodes.keys) (hout : Records h ∅ order out) :
    out = (Catalog.build h).members := by
  obtain ⟨hsound, -, hlisted⟩ := hout.spec (Hierarchy.closed_of_build hb) sound_empty
  exact eq_build hb hsound fun name hname =>
    hlisted name (horder.mem_iff.mpr (Std.ExtTreeMap.mem_keys.mpr hname)) hname

end MemberTable

namespace Catalog

variable {nodes : List TypeNode} {policy : CyclePolicy} {h : Hierarchy} {type : String}
  {node : TypeNode}

theorem buildFrom_eq (hb : Hierarchy.build nodes policy = .ok h) {order : List String}
    (horder : order.Perm h.nodes.keys) (listed : List String) :
    buildFrom h order listed = buildFrom h h.nodes.keys listed := by
  obtain ⟨hsound, hcomplete⟩ := MemberTable.build_spec hb horder
  have hmembers : MemberTable.build h order = MemberTable.build h h.nodes.keys :=
    MemberTable.eq_build hb hsound hcomplete
  simp only [buildFrom, hmembers]

/-- The members of a type are made from what the catalog lists for its supertypes. -/
theorem getElem?_members (hb : Hierarchy.build nodes policy = .ok h)
    (hnode : h.get? type = some node) :
    (build h).members[type]? = some ((build h).members.membersOf h node) := by
  obtain ⟨hsound, hcomplete⟩ := MemberTable.build_spec hb (.refl h.nodes.keys)
  have hmem := hcomplete type (Hierarchy.mem_nodes_iff.mpr ⟨node, hnode⟩)
  obtain ⟨node', hnode', hentry, -⟩ := hsound.entry hmem
  obtain rfl := Option.some.inj (hnode.symm.trans hnode')
  exact hentry

theorem membersOf_eq (hb : Hierarchy.build nodes policy = .ok h)
    (hnode : h.get? type = some node) :
    (build h).membersOf type = (build h).members.membersOf h node := by
  rw [membersOf, MemberTable.get, getElem?_members hb hnode, Option.getD_some]

theorem exists_node_of_mem_methods (hb : Hierarchy.build nodes policy = .ok h) {m : Method}
    (hm : m ∈ ((build h).membersOf type).methods) : ∃ node, h.get? type = some node := by
  have hmem : type ∈ (build h).members := by
    by_contra hnone
    rw [membersOf, MemberTable.get, Std.ExtTreeMap.getElem?_eq_none hnone] at hm
    simp at hm
  exact Hierarchy.mem_nodes_iff.mp ((MemberTable.build_spec hb (.refl h.nodes.keys)).1.mem hmem)

/-- Recording the members of the types of a built hierarchy, each after its supertypes, comes to an
end from any table and for any list of types, with one result. The types that wait for supertypes
to be recorded are never more than there are types. In whatever order all types are visited, the
result is the table of the catalog, and the catalog that is made from it with its signatures listed
in one given order is the same. In the table every type has the members that those of its supertypes
give rise to. -/
theorem catalog_order_independent (hb : Hierarchy.build nodes policy = .ok h) :
    (∀ table names, ∃! out, MemberTable.Records h table names out) ∧
    (∀ waiting : List String, (∀ name ∈ waiting, h.contains name) →
      waiting.IsChain h.nodes.Extends → waiting.length ≤ h.size) ∧
    (∀ order : List String, order.Perm h.nodes.keys →
      MemberTable.Records h ∅ order (build h).members ∧
        ∀ listed, buildFrom h order listed = buildFrom h h.nodes.keys listed) ∧
    ∀ type node, h.get? type = some node →
      (build h).members[type]? = some ((build h).members.membersOf h node) := by
  have hacyclic := Hierarchy.acyclic_of_build hb
  have hwf := TypeTable.wellFounded_extends (Hierarchy.closed_of_build hb) hacyclic
  refine ⟨fun table names => ?_, fun waiting hwaiting hchain => ?_, fun order horder => ⟨?_, ?_⟩,
    fun type node => getElem?_members hb⟩
  · obtain ⟨out, hout⟩ := MemberTable.exists_records hwf table names
    exact ⟨out, hout, fun other hother => hother.unique hout⟩
  · have hsub : waiting ⊆ h.nodes.keys := fun name hname =>
      Std.ExtTreeMap.mem_keys.mpr (Std.ExtTreeMap.mem_iff_contains.mpr (hwaiting name hname))
    have hlength := ((TypeTable.nodup_of_isChain hacyclic hchain).subperm hsub).length_le
    rwa [Std.ExtTreeMap.length_keys] at hlength
  · obtain ⟨out, hout⟩ := MemberTable.exists_records hwf ∅ order
    exact hout.eq_members hb horder ▸ hout
  · exact buildFrom_eq hb horder

def diamond : List TypeNode :=
  [{ name := "Top", kind := .interface,
      methods := [⟨⟨"Top", "f", [], .void⟩, .default, false, false, false, false, [], [], .void⟩] },
    { name := "Left", kind := .interface, interfaces := ["Top"] },
    { name := "Right", kind := .interface, interfaces := ["Top"] },
    { name := "Bottom", superclass := some "Missing", interfaces := ["Left", "Right"] },
    { name := "Ping", superclass := some "Pong" },
    { name := "Pong", superclass := some "Ping" }]

theorem catalog_order_independent_diamond : ∃ h, Hierarchy.build diamond .degrade = .ok h ∧
    ((build h).methodsNamed "Bottom" "f").map Method.declaring = ["Top"] ∧
    MemberTable.Records h ∅ h.nodes.keys.reverse (build h).members ∧
    buildFrom h h.nodes.keys.reverse h.nodes.keys = build h := by
  have hb := Hierarchy.build_degrade diamond
  obtain ⟨hrecords, hfrom⟩ := (catalog_order_independent hb).2.2.1 _ (List.reverse_perm _)
  exact ⟨_, hb, by decide +kernel, hrecords, hfrom _⟩

end Catalog

end JavaCallGraph
