import JavaCallGraph.Proofs.PlainClasses
import JavaCallGraph.Proofs.TypeRenaming

/-!
# Generic types seen as their supertypes

A type with arguments sees each direct supertype with the arguments that its declaration gives it,
its own arguments put in the place of its parameters, and it sees further supertypes through these.
The search for the view of a type follows one such chain, the first that leads to each type. So if
all chains to an ancestor end with the same arguments, the parameters of the ancestor are bound to
these. If the declarations use only their own parameters and the receiver has no type variables,
none is left in any view, and the arity test and the last filter of the search leave nothing out.
-/

namespace JavaCallGraph

namespace StaticType

theorem vars_mk_eq_nil {desc : Descriptor} {args : List StaticType} :
    vars ⟨desc, args⟩ = [] ↔ desc.vars = [] ∧ ∀ a ∈ args, a.vars = [] := by
  simp only [List.eq_nil_iff_forall_not_mem, mem_vars_mk, not_or, not_exists, not_and, forall_and]
  exact and_congr_right fun _ => ⟨fun h a ha v => h v a ha, fun h v a ha => h a ha v⟩

/-- Where every variable is bound to a type without variables, none is left. -/
theorem vars_substitute_eq_nil {b : Bindings} {t : StaticType}
    (h : ∀ v ∈ t.vars, ∃ u, b[v]? = some u ∧ u.vars = []) : (t.substitute b).vars = [] := by
  induction t using induction_head with
  | var v args n =>
    obtain ⟨u, hu, hclosed⟩ := h v (mem_vars_arrayOfRank_typeVar v args n)
    rw [substitute_arrayOfRank, vars_arrayOfRank, substitute_typeVar, hu]
    exact hclosed
  | named desc args hdesc ih =>
    rw [substitute_of_named b hdesc, vars_mk_eq_nil]
    refine ⟨hdesc, fun a ha => ?_⟩
    obtain ⟨arg, harg, rfl⟩ := List.mem_map.mp ha
    exact ih arg harg fun v hv => h v (mem_vars_mk.mpr (.inr ⟨arg, harg, hv⟩))

end StaticType

namespace TypeNode

variable {n : TypeNode} {args : List StaticType}

def instantiation (n : TypeNode) (args : List StaticType) : Bindings :=
  .ofList ((n.typeParams.map TypeParam.name).zip args)

/-- A supertype with parameters is given one argument for each, with no variables but the parameters
of the type that names it. -/
def GivesArgs (n : TypeNode) (sup : String) (s : TypeNode) : Prop :=
  0 < s.typeParams.length → ∃ args ∈ n.superArgs[sup]?, args.length = s.typeParams.length ∧
    ∀ a ∈ args, ∀ v ∈ a.vars, v ∈ n.typeParams.map TypeParam.name

instance {sup : String} {s : TypeNode} : Decidable (n.GivesArgs sup s) :=
  inferInstanceAs (Decidable (_ → _))

theorem bindParams_eq_instantiation
    (h : 0 < n.typeParams.length → args.length = n.typeParams.length) :
    n.bindParams args = n.instantiation args := by
  unfold bindParams
  split
  · rfl
  · next hlength =>
    have hnone : n.typeParams = [] :=
      List.eq_nil_of_length_eq_zero (Nat.eq_zero_of_not_pos fun hsome => hlength (h hsome))
    rw [instantiation, hnone]
    rfl

theorem mem_zip_params {x : String} {t : StaticType} :
    (x, t) ∈ (n.typeParams.map TypeParam.name).zip args ↔
      ∃ (i : Nat) (p : TypeParam), n.typeParams[i]? = some p ∧ p.name = x ∧ args[i]? = some t := by
  simp only [List.mem_iff_getElem?, List.getElem?_zip_eq_some, List.getElem?_map,
    Option.map_eq_some_iff]
  constructor
  · rintro ⟨i, ⟨p, hp, hname⟩, ht⟩
    exact ⟨i, p, hp, hname, ht⟩
  · rintro ⟨i, p, hp, hname, ht⟩
    exact ⟨i, ⟨p, hp, hname⟩, ht⟩

/-- A parameter is bound to the argument in its place, if no other one has its name. -/
theorem getElem?_instantiation (hdistinct : (n.typeParams.map TypeParam.name).Nodup)
    {x : String} {t : StaticType} : (n.instantiation args)[x]? = some t ↔
      ∃ (i : Nat) (p : TypeParam), n.typeParams[i]? = some p ∧ p.name = x ∧ args[i]? = some t := by
  have hpairs : ((n.typeParams.map TypeParam.name).zip args).Pairwise
      fun p q => ¬ compare p.1 q.1 = .eq := by
    have hkeys : (((n.typeParams.map TypeParam.name).zip args).map Prod.fst).Nodup := by
      rw [List.zip_eq_zip_take_min, List.map_fst_zip (by simp)]
      exact hdistinct.sublist (List.take_sublist _ _)
    exact (List.pairwise_map.mp hkeys).imp fun hne heq =>
      hne (Std.LawfulEqOrd.eq_of_compare heq)
  have hbound {u : StaticType} (hu : (x, u) ∈ (n.typeParams.map TypeParam.name).zip args) :
      (n.instantiation args)[x]? = some u :=
    Std.ExtTreeMap.getElem?_ofList_of_mem Std.ReflCmp.compare_self hpairs hu
  rw [← mem_zip_params]
  refine ⟨fun ht => ?_, hbound⟩
  have hmem : x ∈ n.instantiation args :=
    Std.ExtTreeMap.mem_iff_isSome_getElem?.mpr (by simp [ht])
  obtain ⟨⟨y, u⟩, hu, rfl⟩ :=
    List.mem_map.mp (List.contains_iff_mem.mp (Std.ExtTreeMap.mem_ofList.mp hmem))
  rw [hbound hu] at ht
  cases ht
  exact hu

end TypeNode

namespace Hierarchy

open Relation (ReflTransGen)

variable {nodes : List TypeNode} {policy : CyclePolicy} {h : Hierarchy} {receiver t u : StaticType}

/-- A type seen as one of the supertypes that its declaration names, with its own arguments in the
place of its parameters. -/
inductive SeenDirectly (h : Hierarchy) : StaticType → StaticType → Prop
  | mk {name sup : String} {n : TypeNode} {args : List StaticType} :
      h.get? name = some n → sup ∈ n.supertypes →
      SeenDirectly h ⟨.reference name, args⟩ ((n.viewOf sup).substitute (n.instantiation args))

def SeenAs (h : Hierarchy) : StaticType → StaticType → Prop := ReflTransGen h.SeenDirectly

structure Generic (h : Hierarchy) : Prop where
  distinct : ∀ name n, h.get? name = some n → (n.typeParams.map TypeParam.name).Nodup
  givesArgs : ∀ name n sup s, h.get? name = some n → sup ∈ n.supertypes →
    h.get? sup = some s → n.GivesArgs sup s

/-- The declarations can be gone through one by one. -/
theorem generic_iff : h.Generic ↔ ∀ entry ∈ h.nodes.toList,
    (entry.2.typeParams.map TypeParam.name).Nodup ∧
      ∀ sup ∈ entry.2.supertypes, ∀ s ∈ h.get? sup, entry.2.GivesArgs sup s := by
  have hentry (entry : String × TypeNode) : entry ∈ h.nodes.toList ↔
      h.get? entry.1 = some entry.2 := Std.ExtTreeMap.mem_toList_iff_getElem?_eq_some
  constructor
  · intro hgeneric entry hmem
    have hn := (hentry entry).mp hmem
    exact ⟨hgeneric.distinct _ _ hn, fun sup hsup s hs => hgeneric.givesArgs _ _ sup s hn hsup hs⟩
  · intro hall
    constructor
    · exact fun name n hn => (hall (name, n) ((hentry _).mpr hn)).1
    · exact fun name n sup s hn hsup hs => (hall (name, n) ((hentry _).mpr hn)).2 sup hsup s hs

instance : Decidable h.Generic := decidable_of_iff _ generic_iff.symm

/-- A type of the hierarchy has an argument for each of its parameters, without type variables. The
arguments of a type without parameters do not matter. -/
def Applied (h : Hierarchy) (t : StaticType) : Prop :=
  ∀ name n, t.desc = .reference name → h.get? name = some n → 0 < n.typeParams.length →
    t.args.length = n.typeParams.length ∧ ∀ a ∈ t.args, a.vars = []

theorem Applied.exists_arg {name : String} {n : TypeNode} {args : List StaticType}
    (ht : h.Applied ⟨.reference name, args⟩) (hn : h.get? name = some n) {i : Nat} {p : TypeParam}
    (hp : n.typeParams[i]? = some p) : ∃ a, args[i]? = some a ∧ a.vars = [] := by
  have hp := (List.getElem?_eq_some_iff.mp hp).1
  obtain ⟨hlength, hclosed⟩ := ht name n rfl hn (Nat.zero_lt_of_lt hp)
  have hi : i < args.length := hlength ▸ hp
  exact ⟨args[i], List.getElem?_eq_getElem hi, hclosed _ (List.getElem_mem hi)⟩

theorem substitute_viewOf (n : TypeNode) (b : Bindings) (sup : String) :
    (n.viewOf sup).substitute b = ⟨.reference sup, n.superArgsUnder b sup⟩ := by
  rw [TypeNode.viewOf, StaticType.substitute_mk]
  rfl

theorem SeenDirectly.applied (hgeneric : h.Generic) (hseen : h.SeenDirectly t u)
    (ht : h.Applied t) : h.Applied u := by
  cases hseen with
  | @mk name sup n args hn hsup =>
    rw [substitute_viewOf]
    rintro _ s ⟨⟩ hs hparams
    obtain ⟨given, hgiven, hlength, hvars⟩ := hgeneric.givesArgs name n sup s hn hsup hs hparams
    rw [Option.mem_def] at hgiven
    refine ⟨by simpa [TypeNode.superArgsUnder, hgiven] using hlength, fun a ha => ?_⟩
    simp only [TypeNode.superArgsUnder, hgiven, Option.getD_some, List.mem_map] at ha
    obtain ⟨arg, harg, rfl⟩ := ha
    apply StaticType.vars_substitute_eq_nil
    intro v hv
    -- A variable of the argument is a parameter, for which an argument without variables stands.
    obtain ⟨p, hp, rfl⟩ := List.mem_map.mp (hvars arg harg v hv)
    obtain ⟨i, hi⟩ := List.mem_iff_getElem?.mp hp
    obtain ⟨bound, hbound, hclosed⟩ := ht.exists_arg hn hi
    refine ⟨bound, ?_, hclosed⟩
    exact (TypeNode.getElem?_instantiation (hgeneric.distinct name n hn)).mpr
      ⟨i, p, hi, rfl, hbound⟩

theorem SeenAs.applied (hgeneric : h.Generic) (hseen : h.SeenAs t u) (ht : h.Applied t) :
    h.Applied u := by
  induction hseen with
  | refl => exact ht
  | tail _ hlast ih => exact hlast.applied hgeneric ih

theorem Applied.bindParams_eq {name : String} {n : TypeNode} {args : List StaticType}
    (ht : h.Applied ⟨.reference name, args⟩) (hn : h.get? name = some n) :
    n.bindParams args = n.instantiation args :=
  TypeNode.bindParams_eq_instantiation fun hparams => (ht name n rfl hn hparams).1

/-! ### Chains of names -/

theorem extends_of_get? {name sup : String} {n : TypeNode} (hn : h.get? name = some n)
    (hsup : sup ∈ n.supertypes) : h.nodes.Extends name sup :=
  TypeTable.extends_iff.mpr ⟨n, hn, hsup⟩

theorem SeenAs.reaches {start goal : String} (hseen : h.SeenAs t u)
    (ht : t.desc = .reference start) (hu : u.desc = .reference goal) :
    ReflTransGen h.nodes.Extends start goal := by
  induction hseen generalizing goal with
  | refl =>
    rw [ht] at hu
    cases hu
    exact .refl
  | tail _ hlast ih =>
    obtain ⟨hn, hsup⟩ := hlast
    rw [substitute_viewOf] at hu
    cases hu
    exact (ih rfl).tail (extends_of_get? hn hsup)

theorem exists_seenAs {start goal : String} (hreach : ReflTransGen h.nodes.Extends start goal)
    (args : List StaticType) :
    ∃ u, h.SeenAs ⟨.reference start, args⟩ u ∧ u.desc = .reference goal := by
  induction hreach with
  | refl => exact ⟨_, .refl, rfl⟩
  | tail _ hext ih =>
    obtain ⟨u, hseen, hu⟩ := ih
    obtain ⟨n, hn, hsup⟩ := TypeTable.extends_iff.mp hext
    obtain ⟨desc, uargs⟩ := u
    cases hu
    refine ⟨_, hseen.tail (.mk hn hsup), ?_⟩
    rw [substitute_viewOf]

/-! ### The search -/

/-- The state of the search before its goal is found: what is on the agenda is seen by the receiver,
and all that the types entered so far name is on the agenda or has been entered. -/
structure Viewing (h : Hierarchy) (receiver : StaticType) (unseen : NameSet)
    (agenda : List SuperEdge) : Prop where
  seen : ∀ e ∈ agenda, h.SeenAs receiver ⟨.reference e.sup, e.args⟩
  entered : ∀ name n sup, name ∉ unseen → h.get? name = some n → sup ∈ n.supertypes →
    sup ∈ unseen → ∃ e ∈ agenda, e.sup = sup

variable {unseen : NameSet} {agenda : List SuperEdge} {e : SuperEdge} {n : TypeNode}

/-- Entering a type puts the supertypes that it names on the agenda. -/
theorem Viewing.enter (hgeneric : h.Generic) (hreceiver : h.Applied receiver)
    (hv : h.Viewing receiver unseen (e :: agenda)) (hn : h.get? e.sup = some n) :
    h.Viewing receiver (unseen.erase e.sup)
      (agenda ++ superEdges n (n.bindParams e.args)) := by
  have he := hv.seen e List.mem_cons_self
  constructor
  · intro edge hedge
    rcases List.mem_append.mp hedge with hedge | hedge
    · exact hv.seen edge (List.mem_cons_of_mem e hedge)
    · obtain ⟨sup, hsup, rfl⟩ := List.mem_map.mp hedge
      have hlast : h.SeenDirectly ⟨.reference e.sup, e.args⟩ _ := .mk hn hsup
      rw [substitute_viewOf, ← (he.applied hgeneric hreceiver).bindParams_eq hn] at hlast
      exact he.tail hlast
  · intro name m sup hname hm hsup hunseen
    obtain ⟨hother, hunseen⟩ := mem_erase_iff.mp hunseen
    by_cases heq : name = e.sup
    · subst heq
      cases hn.symm.trans hm
      exact ⟨_, List.mem_append_right agenda (List.mem_map_of_mem hsup), rfl⟩
    · have hentered : name ∉ unseen := fun hmem => hname (mem_erase_iff.mpr ⟨heq, hmem⟩)
      obtain ⟨edge, hedge, rfl⟩ := hv.entered name m sup hentered hm hsup hunseen
      rcases List.mem_cons.mp hedge with rfl | hedge
      · exact absurd rfl hother
      · exact ⟨edge, List.mem_append_left _ hedge, rfl⟩

/-- What has been entered already, or is not known, is passed over. -/
theorem Viewing.skip {unseen' : NameSet} (hv : h.Viewing receiver unseen (e :: agenda))
    (hless : ∀ name, name ∈ unseen' → name ≠ e.sup ∧ name ∈ unseen)
    (hentered : ∀ name n, h.get? name = some n → name ∉ unseen' → name ∉ unseen) :
    h.Viewing receiver unseen' agenda := by
  refine ⟨fun edge hedge => hv.seen edge (List.mem_cons_of_mem e hedge), ?_⟩
  intro name m sup hname hm hsup hunseen
  obtain ⟨hother, hunseen⟩ := hless sup hunseen
  obtain ⟨edge, hedge, rfl⟩ := hv.entered name m sup (hentered name m hm hname) hm hsup hunseen
  rcases List.mem_cons.mp hedge with rfl | hedge
  · exact absurd rfl hother
  · exact ⟨edge, hedge, rfl⟩

/-- A chain from a type that has been entered to one that has not is continued by the agenda. -/
theorem Viewing.exists_edge {start goal : String} (hv : h.Viewing receiver unseen agenda)
    (hreach : ReflTransGen h.nodes.Extends start goal) (hstart : start ∉ unseen)
    (hgoal : goal ∈ unseen) : ∃ e, e ∈ agenda := by
  induction hreach with
  | refl => exact absurd hgoal hstart
  | @tail mid goal _ hext ih =>
    by_cases hmid : mid ∈ unseen
    · exact ih hmid
    · obtain ⟨n, hn, hsup⟩ := TypeTable.extends_iff.mp hext
      obtain ⟨e, he, -⟩ := hv.entered mid n goal hmid hn hsup hgoal
      exact ⟨e, he⟩

/-- The search ends with what the receiver sees along some chain to the goal. -/
theorem exists_findView_eq (hgeneric : h.Generic) (hreceiver : h.Applied receiver)
    {start goal : String} {g : TypeNode} (hg : h.get? goal = some g)
    (hreach : ReflTransGen h.nodes.Extends start goal) (hstart : start ∉ unseen)
    (hgoal : goal ∈ unseen) (hv : h.Viewing receiver unseen agenda) :
    ∃ args, h.SeenAs receiver ⟨.reference goal, args⟩ ∧
      h.findView goal unseen agenda = g.bindParams args := by
  fun_induction findView h goal unseen agenda with
  | case1 unseen =>
    obtain ⟨e, he⟩ := hv.exists_edge hreach hstart hgoal
    cases he
  | case2 unseen sup args agenda hsup hnone ih =>
    have hother : goal ≠ sup := by
      rintro rfl
      rw [hg] at hnone
      cases hnone
    refine ih (fun hmem => hstart (mem_erase_iff.mp hmem).2) (mem_erase_iff.mpr ⟨hother, hgoal⟩)
      (hv.skip (fun name => mem_erase_iff.mp) fun name n hn hname hmem => hname ?_)
    refine mem_erase_iff.mpr ⟨?_, hmem⟩
    rintro rfl
    rw [hn] at hnone
    cases hnone
  | case3 unseen sup args agenda hsup n hn bindings heq =>
    obtain rfl : sup = goal := by simpa using heq
    cases hg.symm.trans hn
    exact ⟨args, hv.seen _ List.mem_cons_self, rfl⟩
  | case4 unseen sup args agenda hsup n hn bindings hne ih =>
    have hother : goal ≠ sup := by
      rintro rfl
      simp at hne
    exact ih (fun hmem => hstart (mem_erase_iff.mp hmem).2) (mem_erase_iff.mpr ⟨hother, hgoal⟩)
      (hv.enter hgeneric hreceiver hn)
  | case5 unseen sup args agenda hsup ih =>
    refine ih hstart hgoal (hv.skip (fun name hmem => ⟨?_, hmem⟩) fun name n _ hname => hname)
    rintro rfl
    exact hsup hmem

/-! ### Views -/

theorem mem_names_of_get? (hb : build nodes policy = .ok h) {name : String} {n : TypeNode}
    (hn : h.get? name = some n) : name ∈ h.names := by
  obtain rfl := build_eq_ok hb
  exact TypeTable.mem_names.mpr (Std.ExtTreeMap.mem_iff_isSome_getElem?.mpr
    (Option.isSome_iff_exists.mpr ⟨n, hn⟩))

/-- Before any filter, a receiver sees a supertype as it does along some chain. -/
theorem exists_openView_eq (hb : build nodes policy = .ok h) (hgeneric : h.Generic)
    {start goal : String} {n g : TypeNode} {args : List StaticType}
    (hn : h.get? start = some n) (hreceiver : h.Applied ⟨.reference start, args⟩)
    (hg : h.get? goal = some g) (hreach : ReflTransGen h.nodes.Extends start goal) :
    ∃ found, h.SeenAs ⟨.reference start, args⟩ ⟨.reference goal, found⟩ ∧
      h.openView ⟨.reference start, args⟩ goal = g.instantiation found := by
  have hlisted : h.Viewing ⟨.reference start, args⟩ h.names [⟨start, args⟩] := by
    refine ⟨fun e he => ?_, fun name m sup hname hm => absurd (mem_names_of_get? hb hm) hname⟩
    rw [List.mem_singleton.mp he]
    exact .refl
  have hentered := hlisted.enter hgeneric hreceiver hn
  obtain ⟨found, hseen, heq⟩ : ∃ found,
      h.SeenAs ⟨.reference start, args⟩ ⟨.reference goal, found⟩ ∧
        h.openView ⟨.reference start, args⟩ goal = g.bindParams found := by
    unfold openView
    simp only [StaticType.referenceName?, Descriptor.referenceName?, hn]
    split
    · next heq =>
      obtain rfl : start = goal := by simpa using heq
      cases hn.symm.trans hg
      exact ⟨args, .refl, rfl⟩
    · next hne =>
      have hgoal : goal ≠ start := by
        rintro rfl
        simp at hne
      exact exists_findView_eq hgeneric hreceiver hg hreach
        (fun hmem => (mem_erase_iff.mp hmem).1 rfl)
        (mem_erase_iff.mpr ⟨hgoal, mem_names_of_get? hb hg⟩) hentered
  exact ⟨found, hseen, heq.trans ((hseen.applied hgeneric hreceiver).bindParams_eq hg)⟩

theorem not_isTypeVar_of_vars_eq_nil (ht : t.vars = []) : t.desc.isTypeVar = false := by
  obtain ⟨desc, args⟩ := t
  cases desc with
  | typeVar name => simp [StaticType.vars, Descriptor.vars] at ht
  | _ => rfl

/-- The filter leaves out nothing, since no argument is a type variable. -/
theorem exists_view_iff (hb : build nodes policy = .ok h) (hgeneric : h.Generic)
    {start goal : String} {n g : TypeNode} {args : List StaticType}
    (hn : h.get? start = some n) (hreceiver : h.Applied ⟨.reference start, args⟩)
    (hg : h.get? goal = some g) (hreach : ReflTransGen h.nodes.Extends start goal) :
    ∃ found, h.SeenAs ⟨.reference start, args⟩ ⟨.reference goal, found⟩ ∧
      ∀ (x : String) (t : StaticType), (h.view ⟨.reference start, args⟩ goal)[x]? = some t ↔
        ∃ (i : Nat) (p : TypeParam), g.typeParams[i]? = some p ∧ p.name = x ∧
          found[i]? = some t := by
  obtain ⟨found, hfound, hopen⟩ := exists_openView_eq hb hgeneric hn hreceiver hg hreach
  refine ⟨found, hfound, fun x t => ?_⟩
  rw [view, Std.ExtTreeMap.getElem?_filter', Option.filter_eq_some_iff, hopen,
    TypeNode.getElem?_instantiation (hgeneric.distinct goal g hg), and_iff_left_iff_imp]
  rintro ⟨i, p, hp, -, ht⟩
  obtain ⟨arg, harg, hvars⟩ := (hfound.applied hgeneric hreceiver).exists_arg hg hp
  cases ht.symm.trans harg
  simp [not_isTypeVar_of_vars_eq_nil hvars]

/-- In a hierarchy of proper generic declarations, a receiver without type variables sees each of
its ancestors along some chain. If all chains to a type agree on the arguments for its parameters,
the view binds exactly these parameters, each to its argument at the end of any chain, and no type
variable is left in them. -/
theorem view_composes (hb : build nodes policy = .ok h) (hgeneric : h.Generic) {start : String}
    {n : TypeNode} (hn : h.get? start = some n) {args : List StaticType}
    (hlength : args.length = n.typeParams.length) (hclosed : ∀ a ∈ args, a.vars = []) :
    (∀ ancestor ∈ h.ancestors start,
      ∃ u, h.SeenAs ⟨.reference start, args⟩ u ∧ u.desc = .reference ancestor) ∧
    ∀ (ancestor : String) (a : TypeNode) (u : StaticType), h.get? ancestor = some a →
      h.SeenAs ⟨.reference start, args⟩ u → u.desc = .reference ancestor →
      (∀ v, h.SeenAs ⟨.reference start, args⟩ v → v.desc = .reference ancestor →
        ∀ i < a.typeParams.length, v.args[i]? = u.args[i]?) →
      let view := h.view ⟨.reference start, args⟩ ancestor
      (∀ x, x ∈ view ↔ x ∈ a.typeParams.map TypeParam.name) ∧
      (∀ (i : Nat) (p : TypeParam), a.typeParams[i]? = some p →
        ∃ t, u.args[i]? = some t ∧ view[p.name]? = some t) ∧
      ∀ (x : String) (t : StaticType), view[x]? = some t → t.vars = [] := by
  have hreceiver : h.Applied ⟨.reference start, args⟩ := by
    rintro name m ⟨⟩ hm -
    cases hn.symm.trans hm
    exact ⟨hlength, hclosed⟩
  refine ⟨fun ancestor hancestor => ?_, fun ancestor a u ha hu hdesc hagree => ?_⟩
  · have hchain := ((mem_ancestors_of_build hb).mp hancestor).2
    exact exists_seenAs hchain.transGen.to_reflTransGen args
  · obtain ⟨found, hfound, hview⟩ :=
      exists_view_iff hb hgeneric hn hreceiver ha (hu.reaches rfl hdesc)
    have happlied := hfound.applied hgeneric hreceiver
    refine ⟨fun x => ?_, fun i p hp => ?_, fun x t ht => ?_⟩
    · rw [Std.ExtTreeMap.mem_iff_isSome_getElem?, Option.isSome_iff_exists, List.mem_map]
      simp only [hview]
      constructor
      · rintro ⟨t, i, p, hp, hname, -⟩
        exact ⟨p, List.mem_of_getElem? hp, hname⟩
      · rintro ⟨p, hmem, hname⟩
        obtain ⟨i, hp⟩ := List.mem_iff_getElem?.mp hmem
        obtain ⟨t, ht, -⟩ := happlied.exists_arg ha hp
        exact ⟨t, i, p, hp, hname, ht⟩
    · obtain ⟨t, ht, -⟩ := happlied.exists_arg ha hp
      have hi := (List.getElem?_eq_some_iff.mp hp).1
      exact ⟨t, by rw [← hagree _ hfound rfl i hi, ht], (hview _ _).mpr ⟨i, p, hp, rfl, ht⟩⟩
    · obtain ⟨i, p, hp, -, harg⟩ := (hview x t).mp ht
      obtain ⟨t', ht', hvars⟩ := happlied.exists_arg ha hp
      cases harg.symm.trans ht'
      exact hvars

section Lists

def row : StaticType := ⟨.array (.reference "List"), [.reference "String"]⟩

def directViews (h : Hierarchy) (t : StaticType) : List StaticType :=
  match t.desc with
  | .reference name => (h.get? name).toList.flatMap fun n =>
      n.supertypes.map fun sup => (n.viewOf sup).substitute (n.instantiation t.args)
  | _ => []

/-- A list that has all direct views of its members has all views of them. -/
theorem SeenAs.mem_of_closed {listed : List StaticType}
    (hlisted : ∀ t ∈ listed, ∀ u ∈ h.directViews t, u ∈ listed) (ht : t ∈ listed)
    (hseen : h.SeenAs t u) : u ∈ listed := by
  induction hseen with
  | refl => exact ht
  | tail _ hlast ih =>
    obtain ⟨hn, hsup⟩ := hlast
    exact hlisted _ ih _ (List.mem_flatMap.mpr
      ⟨_, Option.mem_toList.mpr hn, List.mem_map_of_mem hsup⟩)

/-- `class Rows extends ArrayList<List<String>[]>`, where `ArrayList<E>` is a `List<E>` by itself
and through `AbstractList<T>`. -/
def lists : List TypeNode :=
  [{ name := "List", kind := .interface, typeParams := [⟨"E", none⟩] },
    { name := "AbstractList", interfaces := ["List"], typeParams := [⟨"T", none⟩]
      superArgs := {("List", [StaticType.ofDescriptor (.typeVar "T")])} },
    { name := "ArrayList", superclass := some "AbstractList", interfaces := ["List"]
      typeParams := [⟨"E", none⟩]
      superArgs := {("AbstractList", [StaticType.ofDescriptor (.typeVar "E")]),
        ("List", [StaticType.ofDescriptor (.typeVar "E")])} },
    { name := "Rows", superclass := some "ArrayList", superArgs := {("ArrayList", [row])} }]

def rowViews : List StaticType :=
  [.reference "Rows", ⟨.reference "ArrayList", [row]⟩, ⟨.reference "AbstractList", [row]⟩,
    ⟨.reference "List", [row]⟩]

/-- Rows are lists of arrays, by the way that the search takes and by any other. -/
theorem view_composes_rows : ∃ h, build lists .degrade = .ok h ∧
    (h.view (.reference "Rows") "List")["E"]? = some row := by
  obtain ⟨h, hb, hfacts⟩ := exists_ok_of_any (build lists .degrade)
    (fun h => (h.get? "Rows").any fun rows : TypeNode => (h.get? "List").any fun list : TypeNode =>
      decide (h.Generic ∧ rows.typeParams.length = 0 ∧
        list.typeParams.map TypeParam.name = ["E"] ∧ "List" ∈ h.ancestors "Rows" ∧
        ∀ t ∈ rowViews, ∀ u ∈ h.directViews t, u ∈ rowViews))
    (by decide +kernel)
  obtain ⟨rows, hrows, hfacts⟩ := (Option.any_eq_true _ _).mp hfacts
  obtain ⟨list, hlist, hfacts⟩ := (Option.any_eq_true _ _).mp hfacts
  obtain ⟨hgeneric, hlength, hnames, hancestor, hclosed⟩ := of_decide_eq_true hfacts
  have hviews {v : StaticType} (hv : h.SeenAs (.reference "Rows") v)
      (hdesc : v.desc = .reference "List") : v = ⟨.reference "List", [row]⟩ := by
    have hmem := hv.mem_of_closed hclosed (by decide)
    simp only [rowViews, List.mem_cons, List.not_mem_nil, or_false] at hmem
    rcases hmem with rfl | rfl | rfl | rfl
    · exact absurd hdesc (by decide)
    · exact absurd hdesc (by decide)
    · exact absurd hdesc (by decide)
    · rfl
  have hraw : ([] : List StaticType).length = rows.typeParams.length := hlength.symm
  obtain ⟨hseen, hview⟩ := view_composes hb hgeneric hrows hraw (by simp)
  obtain ⟨u, hu, hdesc⟩ := hseen "List" hancestor
  obtain ⟨-, hbound, -⟩ := hview "List" list u hlist hu hdesc fun v hv hvdesc i _ => by
    rw [hviews hv hvdesc, hviews hu hdesc]
  obtain ⟨p, hparams, hname⟩ := List.map_eq_singleton_iff.mp hnames
  obtain ⟨t, ht, hview⟩ := hbound 0 p (by simp [hparams])
  rw [hviews hu hdesc] at ht
  cases ht
  exact ⟨h, hb, hname ▸ hview⟩

end Lists

end Hierarchy

end JavaCallGraph
