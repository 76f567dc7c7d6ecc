import JavaCallGraph.Proofs.HierarchySearch
import Mathlib.Data.List.Basic
import Mathlib.Logic.Relation

/-!
# The cycles that the search meets

The path of the search is a chain of edges, so the types noted when an edge leads back onto it lie
on a cycle of types that are all noted. In the other direction, an edge that has been tried leads
to a type that finishes earlier, or both of its ends have been noted. A cycle cannot go down in the
order of finishing all the way round, so each one has a type that has been noted.
-/

namespace JavaCallGraph

namespace Search

variable {next : String → List String} {names : NameSet}

def Leads (next : String → List String) (a b : String) : Prop := b ∈ next a

def Noted (cyclic : NameSet) (a b : String) : Prop := a ∈ cyclic ∧ b ∈ cyclic

def NotedEdge (next : String → List String) (cyclic : NameSet) (a b : String) : Prop :=
  Leads next a b ∧ Noted cyclic a b

def OnNotedCycle (next : String → List String) (cyclic : NameSet) (name : String) : Prop :=
  Relation.TransGen (NotedEdge next cyclic) name name

/-! ### Loops of the path -/

section Loops

variable {f : Frame} {path : List Frame} {sup name : String}

theorem loopTo_cons (sup : String) (f : Frame) (path : List Frame) :
    loopTo sup (f :: path) =
      if f.name = sup then [sup]
      else if sup ∈ path.map Frame.name then f.name :: loopTo sup path else [] := by
  by_cases hf : f.name = sup
  · simp [loopTo, hf]
  · by_cases hmem : sup ∈ path.map Frame.name
    · simp [loopTo, hf, Ne.symm hf, hmem]
    · simp [loopTo, hf, Ne.symm hf, hmem]

theorem mem_loopTo_self (h : sup ∈ path.map Frame.name) : sup ∈ loopTo sup path := by
  rw [loopTo, if_pos (by simpa using h)]
  simp

theorem head_mem_loopTo (h : sup ∈ (f :: path).map Frame.name) :
    f.name ∈ loopTo sup (f :: path) := by
  rw [loopTo_cons]
  by_cases hf : f.name = sup
  · simp [hf]
  · have hpath : sup ∈ path.map Frame.name := by simpa [Ne.symm hf] using h
    rw [if_neg hf, if_pos hpath]
    exact List.mem_cons_self

/-- Each type on the path is reached by an edge from the one before it, and what is pending at a
type are edges out of it. -/
def Linked (next : String → List String) : List Frame → Prop
  | [] => True
  | f :: path =>
    (∀ b ∈ f.pending, b ∈ next f.name) ∧ (∀ g ∈ path.head?, f.name ∈ next g.name) ∧
      Linked next path

variable {cyclic : NameSet}

/-- A loop runs along the path from the type that closes it to the end of the path. -/
theorem Linked.of_mem_loopTo (h : Linked next (f :: path))
    (hnoted : ∀ x ∈ loopTo sup (f :: path), x ∈ cyclic) (hname : name ∈ loopTo sup (f :: path)) :
    Relation.ReflTransGen (NotedEdge next cyclic) sup name ∧
      Relation.ReflTransGen (NotedEdge next cyclic) name f.name := by
  induction path generalizing f name with
  | nil =>
    rw [loopTo_cons] at hname
    split at hname
    · next hf =>
      obtain rfl := List.mem_singleton.mp hname
      exact ⟨.refl, hf ▸ .refl⟩
    · simp at hname
  | cons g path ih =>
    rw [loopTo_cons] at hname hnoted
    split at hname
    · next hf =>
      obtain rfl := List.mem_singleton.mp hname
      exact ⟨.refl, hf ▸ .refl⟩
    · next hf =>
      rw [if_neg hf] at hnoted
      split at hname
      · next hmem =>
        rw [if_pos hmem] at hnoted
        obtain ⟨hfirst, hrest⟩ := List.forall_mem_cons.mp hnoted
        have hedge : NotedEdge next cyclic g.name f.name :=
          ⟨h.2.1 g rfl, hrest _ (head_mem_loopTo hmem), hfirst⟩
        rcases List.mem_cons.mp hname with rfl | hname
        · exact ⟨(ih h.2.2 hrest (mem_loopTo_self hmem)).2.tail hedge, .refl⟩
        · obtain ⟨hto, hback⟩ := ih h.2.2 hrest hname
          exact ⟨hto, hback.tail hedge⟩
      · simp at hname

theorem mem_names_of_mem_loopTo (h : name ∈ loopTo sup path) : sup ∈ path.map Frame.name := by
  rw [loopTo] at h
  split at h
  · next hmem => simpa using hmem
  · simp at h

theorem Linked.onNotedCycle_of_mem_loopTo (h : Linked next (f :: path)) (hsup : sup ∈ next f.name)
    (hnoted : ∀ x ∈ loopTo sup (f :: path), x ∈ cyclic) (hname : name ∈ loopTo sup (f :: path)) :
    OnNotedCycle next cyclic name := by
  obtain ⟨hto, hback⟩ := h.of_mem_loopTo hnoted hname
  have hmem := mem_names_of_mem_loopTo hname
  have hedge : NotedEdge next cyclic f.name sup :=
    ⟨hsup, hnoted _ (head_mem_loopTo hmem), hnoted _ (mem_loopTo_self hmem)⟩
  exact (Relation.TransGen.tail' hback hedge).trans_left hto

end Loops

/-! ### Edges that have been tried -/

/-- Every edge out of a finished type leads to a type that finished earlier, or is noted. -/
def Settled (next : String → List String) (cyclic : NameSet) : List String → Prop
  | [] => True
  | a :: finished =>
    (∀ b ∈ next a, b ∈ finished ∨ Noted cyclic a b) ∧ Settled next cyclic finished

/-- Every edge out of a type on the path is pending, leads further along the path (`above`) or to a
finished type, or is noted. -/
def Tried (next : String → List String) (cyclic : NameSet) (finished : List String) :
    List String → List Frame → Prop
  | _, [] => True
  | above, f :: path =>
    (∀ b ∈ next f.name, b ∈ f.pending ∨ b ∈ above ∨ b ∈ finished ∨ Noted cyclic f.name b) ∧
      Tried next cyclic finished (f.name :: above) path

section Edges

variable {cyclic cyclic' : NameSet} {finished finished' above above' : List String}
  {path : List Frame} {a b : String}

theorem Noted.mono (hcyclic : ∀ x ∈ cyclic, x ∈ cyclic') (h : Noted cyclic a b) :
    Noted cyclic' a b := ⟨hcyclic a h.1, hcyclic b h.2⟩

theorem OnNotedCycle.mono (hcyclic : ∀ x ∈ cyclic, x ∈ cyclic') (h : OnNotedCycle next cyclic a) :
    OnNotedCycle next cyclic' a :=
  Relation.TransGen.mono (fun _ _ hedge => ⟨hedge.1, hedge.2.mono hcyclic⟩) _ _ h

theorem Settled.mono (hcyclic : ∀ x ∈ cyclic, x ∈ cyclic') (h : Settled next cyclic finished) :
    Settled next cyclic' finished := by
  induction finished with
  | nil => trivial
  | cons a finished ih =>
    refine ⟨fun b hb => ?_, ih h.2⟩
    exact (h.1 b hb).imp_right (Noted.mono hcyclic)

/-- What stands above on the path may finish, and more may be noted. -/
theorem Tried.mono (hcyclic : ∀ x ∈ cyclic, x ∈ cyclic')
    (hfinished : ∀ x ∈ finished, x ∈ finished')
    (habove : ∀ x ∈ above, x ∈ above' ∨ x ∈ finished')
    (h : Tried next cyclic finished above path) : Tried next cyclic' finished' above' path := by
  induction path generalizing above above' with
  | nil => trivial
  | cons f path ih =>
    refine ⟨fun b hb => ?_, ih (fun x hx => ?_) h.2⟩
    · rcases h.1 b hb with hpending | habv | hfin | hnoted
      · exact .inl hpending
      · exact .inr ((habove b habv).imp_right .inl)
      · exact .inr (.inr (.inl (hfinished b hfin)))
      · exact .inr (.inr (.inr (hnoted.mono hcyclic)))
    · rcases List.mem_cons.mp hx with rfl | hx
      · exact .inl List.mem_cons_self
      · exact (habove x hx).imp_left (List.mem_cons_of_mem _)

/-- Types that are not noted lie on no cycle of which every edge starts at such a type. -/
theorem Settled.acyclic (h : Settled next cyclic finished) (ha : a ∈ finished) :
    ¬ Relation.TransGen (fun x y => Leads next x y ∧ x ∉ cyclic) a a := by
  induction finished generalizing a with
  | nil => simp at ha
  | cons x finished ih =>
    intro hcycle
    rcases List.mem_cons.mp ha with rfl | ha
    · obtain ⟨b, hedge, hback⟩ := Relation.TransGen.head'_iff.mp hcycle
      rcases h.1 b hedge.1 with hb | hnoted
      · exact ih h.2 hb (Relation.TransGen.tail' hback hedge)
      · exact hedge.2 hnoted.1
    · exact ih h.2 ha hcycle

end Edges

/-! ### The search as a whole -/

structure Inv (next : String → List String) (names : NameSet) (s : Search) : Prop where
  accounts : Accounts names s
  linked : Linked next s.path
  cyclic : ∀ name ∈ s.cyclic, OnNotedCycle next s.cyclic name
  settled : Settled next s.cyclic s.finished
  tried : Tried next s.cyclic s.finished [] s.path

theorem inv_initial (next : String → List String) (names : NameSet) :
    Inv next names { unvisited := names } :=
  ⟨accounts_initial names, trivial, by simp, trivial, trivial⟩

section Moves

variable {unvisited cyclic : NameSet} {name sup : String} {pending finished : List String}
  {path : List Frame}

theorem Inv.leave (h : Inv next names ⟨unvisited, ⟨name, []⟩ :: path, finished, cyclic⟩) :
    Inv next names ⟨unvisited, path, name :: finished, cyclic⟩ where
  accounts := h.accounts.leave
  linked := h.linked.2.2
  cyclic := h.cyclic
  settled := by
    refine ⟨fun b hb => ?_, h.settled⟩
    rcases h.tried.1 b hb with hpending | habove | hrest
    · simp at hpending
    · simp at habove
    · exact hrest
  tried := by
    refine h.tried.2.mono (fun _ hx => hx) (fun _ hx => List.mem_cons_of_mem _ hx) fun x hx => ?_
    obtain rfl := List.mem_singleton.mp hx
    exact .inr List.mem_cons_self

theorem Inv.enter (hsup : sup ∈ unvisited)
    (h : Inv next names ⟨unvisited, ⟨name, sup :: pending⟩ :: path, finished, cyclic⟩) :
    Inv next names
      ⟨unvisited.erase sup, ⟨sup, next sup⟩ :: ⟨name, pending⟩ :: path, finished, cyclic⟩ where
  accounts := h.accounts.enter hsup
  linked := by
    have hedges : ∀ b ∈ sup :: pending, b ∈ next name := h.linked.1
    refine ⟨fun b hb => hb, ?_, fun b hb => hedges b (List.mem_cons_of_mem _ hb), h.linked.2⟩
    rintro g ⟨rfl⟩
    exact hedges sup List.mem_cons_self
  cyclic := h.cyclic
  settled := h.settled
  tried := by
    refine ⟨fun b hb => .inl hb, fun b hb => ?_, ?_⟩
    · rcases h.tried.1 b hb with hpending | habove | hrest
      · rcases List.mem_cons.mp hpending with rfl | hpending
        · exact .inr (.inl List.mem_cons_self)
        · exact .inl hpending
      · simp at habove
      · exact .inr (.inr hrest)
    · refine h.tried.2.mono (fun _ hx => hx) (fun _ hx => hx) fun x hx => .inl ?_
      obtain rfl := List.mem_singleton.mp hx
      exact List.mem_cons_self

/-- The edge leads to a finished type, or back onto the path and closes a loop. -/
theorem Inv.turnBack (hnames : ∀ a b, b ∈ next a → b ∈ names) (hsup : sup ∉ unvisited)
    (h : Inv next names ⟨unvisited, ⟨name, sup :: pending⟩ :: path, finished, cyclic⟩) :
    Inv next names ⟨unvisited, ⟨name, pending⟩ :: path, finished,
      cyclic.insertMany (loopTo sup (⟨name, pending⟩ :: path))⟩ := by
  have hedges : ∀ b ∈ sup :: pending, b ∈ next name := h.linked.1
  have hedge : sup ∈ next name := hedges sup List.mem_cons_self
  have hlinked : Linked next (⟨name, pending⟩ :: path) :=
    ⟨fun b hb => hedges b (List.mem_cons_of_mem _ hb), h.linked.2⟩
  have hmono : ∀ x ∈ cyclic, x ∈ cyclic.insertMany (loopTo sup (⟨name, pending⟩ :: path)) := by
    intro x hx
    simp [hx]
  refine ⟨h.accounts.turnBack, hlinked, fun x hx => ?_, h.settled.mono hmono, fun b hb => ?_,
    h.tried.2.mono hmono (fun _ hx => hx) fun _ hx => .inl hx⟩
  · rw [Std.ExtTreeSet.mem_insertMany_list] at hx
    rcases hx with hx | hx
    · exact (h.cyclic x hx).mono hmono
    · refine hlinked.onNotedCycle_of_mem_loopTo hedge (fun y hy => ?_) (by simpa using hx)
      simp [hy]
  · rcases h.tried.1 b hb with hpending | habove | hfin | hnoted
    · rcases List.mem_cons.mp hpending with rfl | hpending
      · -- The edge that has just been tried.
        rcases (h.accounts b).mp (hnames name b hedge) with hunvisited | hpath | hfin
        · exact absurd hunvisited hsup
        · right; right; right
          have hloop : b ∈ (⟨name, pending⟩ :: path : List Frame).map Frame.name := by
            simpa using hpath
          constructor
          · simpa using Or.inr (head_mem_loopTo hloop)
          · simpa using Or.inr (mem_loopTo_self hloop)
        · exact .inr (.inr (.inl hfin))
      · exact .inl hpending
    · simp at habove
    · exact .inr (.inr (.inl hfin))
    · exact .inr (.inr (.inr (hnoted.mono hmono)))

end Moves

theorem Inv.run (hnames : ∀ a b, b ∈ next a → b ∈ names) {s : Search} (h : Inv next names s) :
    Inv next names (run next s) := by
  fun_induction Search.run next s with
  | case1 => exact h
  | case2 unvisited name path finished cyclic ih => exact ih h.leave
  | case3 unvisited name sup pending path finished cyclic path' hsup ih => exact ih (h.enter hsup)
  | case4 unvisited name sup pending path finished cyclic path' hsup ih =>
    exact ih (h.turnBack hnames hsup)

theorem Inv.visit (hnames : ∀ a b, b ∈ next a → b ∈ names) {s : Search} (h : Inv next names s)
    (hpath : s.path = []) (root : String) : Inv next names (visit next s root) := by
  unfold Search.visit
  split
  · next hroot =>
    apply Inv.run hnames
    exact ⟨h.accounts.start hpath hroot, ⟨fun b hb => hb, by simp, trivial⟩, h.cyclic, h.settled,
      fun b hb => .inl hb, trivial⟩
  · exact h

theorem inv_all (hnames : ∀ a b, b ∈ next a → b ∈ names) (roots : List String) :
    Inv next names (all next names roots) := by
  have hfold : ∀ s : Search, Inv next names s → s.path = [] →
      Inv next names (roots.foldl (Search.visit next) s) := by
    induction roots with
    | nil => exact fun s h _ => h
    | cons root roots ih =>
      intro s h hpath
      exact ih _ (h.visit hnames hpath root) (path_visit hpath root)
  exact hfold _ (inv_initial next names) rfl

end Search

end JavaCallGraph
