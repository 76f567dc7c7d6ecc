import JavaCallGraph.Hierarchy
import Mathlib.Tactic.Tauto

/-!
# What the search through supertypes visits

At every moment of the search each type is unvisited, on the path, or finished. When a run is over
the path is empty, so a search that starts once at every type finishes them all.
-/

namespace JavaCallGraph

namespace Search

variable {next : String → List String} {names : NameSet}

def Accounts (names : NameSet) (s : Search) : Prop :=
  ∀ name, name ∈ names ↔
    name ∈ s.unvisited ∨ name ∈ s.path.map Frame.name ∨ name ∈ s.finished

theorem accounts_initial (names : NameSet) : Accounts names { unvisited := names } := by
  intro name
  simp

section Moves

variable {unvisited cyclic : NameSet} {name sup : String} {pending finished : List String}
  {path : List Frame}

theorem Accounts.leave (h : Accounts names ⟨unvisited, ⟨name, []⟩ :: path, finished, cyclic⟩) :
    Accounts names ⟨unvisited, path, name :: finished, cyclic⟩ := by
  intro x
  rw [h x]
  simp only [List.map_cons, List.mem_cons]
  tauto

theorem Accounts.enter {next' : List String} (hsup : sup ∈ unvisited)
    (h : Accounts names ⟨unvisited, ⟨name, sup :: pending⟩ :: path, finished, cyclic⟩) :
    Accounts names
      ⟨unvisited.erase sup, ⟨sup, next'⟩ :: ⟨name, pending⟩ :: path, finished, cyclic⟩ := by
  intro x
  rw [h x]
  by_cases hx : x = sup
  · subst hx
    simp [hsup]
  · simp [hx, Ne.symm hx]

theorem Accounts.turnBack {cyclic' : NameSet}
    (h : Accounts names ⟨unvisited, ⟨name, sup :: pending⟩ :: path, finished, cyclic⟩) :
    Accounts names ⟨unvisited, ⟨name, pending⟩ :: path, finished, cyclic'⟩ := by
  intro x
  rw [h x]
  simp

end Moves

theorem Accounts.run {s : Search} (h : Accounts names s) : Accounts names (run next s) := by
  fun_induction Search.run next s with
  | case1 => exact h
  | case2 unvisited name path finished cyclic ih => exact ih h.leave
  | case3 unvisited name sup pending path finished cyclic path' hsup ih => exact ih (h.enter hsup)
  | case4 unvisited name sup pending path finished cyclic path' hsup ih => exact ih h.turnBack

theorem path_run (s : Search) : (run next s).path = [] := by
  fun_induction Search.run next s with
  | case1 => rfl
  | case2 _ _ _ _ _ ih => exact ih
  | case3 _ _ _ _ _ _ _ _ _ ih => exact ih
  | case4 _ _ _ _ _ _ _ _ _ ih => exact ih

theorem unvisited_run_subset (s : Search) {name : String} (h : name ∈ (run next s).unvisited) :
    name ∈ s.unvisited := by
  fun_induction Search.run next s with
  | case1 => exact h
  | case2 _ _ _ _ _ ih => exact ih h
  | case3 _ _ _ _ _ _ _ _ _ ih => exact Std.ExtTreeSet.mem_of_mem_erase (ih h)
  | case4 _ _ _ _ _ _ _ _ _ ih => exact ih h

theorem Accounts.start {s : Search} (h : Accounts names s) (hpath : s.path = []) {root : String}
    {next' : List String} (hroot : root ∈ s.unvisited) :
    Accounts names { s with unvisited := s.unvisited.erase root, path := [⟨root, next'⟩] } := by
  intro x
  rw [h x, hpath]
  by_cases hx : x = root
  · subst hx
    simp [hroot]
  · simp [hx, Ne.symm hx]

theorem Accounts.visit {s : Search} (h : Accounts names s) (hpath : s.path = []) (root : String) :
    Accounts names (visit next s root) := by
  unfold Search.visit
  split
  · next hroot => exact (h.start hpath hroot).run
  · exact h

theorem path_visit {s : Search} (hpath : s.path = []) (root : String) :
    (visit next s root).path = [] := by
  unfold visit
  split
  · exact path_run _
  · exact hpath

theorem unvisited_visit {s : Search} {root name : String}
    (h : name ∈ (visit next s root).unvisited) : name ∈ s.unvisited ∧ name ≠ root := by
  unfold visit at h
  split at h
  · have herase := unvisited_run_subset _ h
    rw [Std.ExtTreeSet.mem_erase] at herase
    exact ⟨herase.2, by rintro rfl; simp at herase⟩
  · next hroot => exact ⟨h, by rintro rfl; exact hroot h⟩

/-- After a search from `roots` only types outside of `roots` can be left unvisited. -/
theorem accounts_foldl_visit (next : String → List String) {s : Search} (h : Accounts names s)
    (hpath : s.path = []) (roots : List String) :
    Accounts names (roots.foldl (Search.visit next) s) ∧
      (roots.foldl (Search.visit next) s).path = [] ∧
      ∀ name ∈ (roots.foldl (Search.visit next) s).unvisited,
        name ∈ s.unvisited ∧ name ∉ roots := by
  induction roots generalizing s with
  | nil => simp [h, hpath]
  | cons root roots ih =>
    obtain ⟨ha, hp, hu⟩ := ih (h.visit hpath root) (path_visit hpath root)
    refine ⟨ha, hp, fun name hname => ?_⟩
    obtain ⟨hvisit, hroots⟩ := hu name hname
    obtain ⟨hs, hroot⟩ := unvisited_visit hvisit
    exact ⟨hs, by simp [hroot, hroots]⟩

theorem mem_finished_all {roots : List String} (hroots : ∀ name ∈ names, name ∈ roots)
    {name : String} : name ∈ (all next names roots).finished ↔ name ∈ names := by
  obtain ⟨ha, hp, hu⟩ := accounts_foldl_visit next (accounts_initial names) rfl roots
  have hname := ha name
  change _ = [] at hp
  rw [hp] at hname
  constructor
  · intro hf
    exact hname.mpr (.inr (.inr hf))
  · intro hn
    rcases hname.mp hn with hunvisited | hpath | hf
    · exact absurd (hroots name hn) (hu name hunvisited).2
    · simp at hpath
    · exact hf

end Search

namespace TypeTable

@[simp] theorem mem_names {table : TypeTable} {name : String} :
    name ∈ table.names ↔ name ∈ table := by
  simp [names]

theorem mem_finished_search {table : TypeTable} {name : String} :
    name ∈ (table.search table.keys).finished ↔ name ∈ table := by
  rw [search, Search.mem_finished_all (by simp), mem_names]

end TypeTable

end JavaCallGraph
