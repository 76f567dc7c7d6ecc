import JavaCallGraph.Proofs.BreadthFirstOrder
import JavaCallGraph.Proofs.GraphMerges

/-!
# Bounded walks

A walk has seen the start and what it has reported. Level by level this is the breadth-first order,
cut off at the number of signatures that may be seen. While there is room for another one, the level
is the last layer of the order, so every report is at its distance from the start and comes from a
signature that is one step nearer. The number of reports stays below the number of signatures seen,
so the bound on the reports never stops a walk.
-/

namespace JavaCallGraph

namespace CallGraph

variable {g : CallGraph} {direction : Direction} {stop : Progress → Bool} {p : Progress}
  {start source target : Signature} {depth limit n : Nat} {level : List Signature}

/-! ### Visits -/

namespace Progress

def seen (start : Signature) (p : Progress) : List Signature :=
  start :: p.entries.toList.map WalkEntry.target

def atLimit (limit : Nat) (p : Progress) : Bool := limit ≤ p.visited.size

structure Tracks (start : Signature) (p : Progress) : Prop where
  nodup : (p.seen start).Nodup
  mem_visited : ∀ s, s ∈ p.visited ↔ s ∈ p.seen start

theorem Tracks.size_visited (h : p.Tracks start) : p.visited.size = (p.seen start).length := by
  have hperm : p.visited.toList.Perm (p.seen start) := by
    apply (List.perm_ext_iff_of_nodup (nodup_toList p.visited) h.nodup).mpr
    intro s
    rw [Std.ExtTreeSet.mem_toList, h.mem_visited]
  simpa using hperm.length_eq

theorem tracks_start (start : Signature) : Tracks start { visited := {start} } where
  nodup := by simp [seen]
  mem_visited := by simp [seen, eq_comm (a := start)]

theorem visit_cases (stop : Progress → Bool) (depth : Nat) (source : Signature) (p : Progress)
    (target : Signature) :
    (stop p ∨ target ∈ p.visited) ∧ visit stop depth source p target = p ∨
      ¬ stop p ∧ target ∉ p.visited ∧ visit stop depth source p target =
        ⟨p.visited.insert target, p.entries.push ⟨source, target, depth⟩⟩ := by
  unfold visit
  split
  · next hskip => exact .inl ⟨by simpa using hskip, rfl⟩
  · next hskip =>
    rw [Bool.or_eq_true, not_or, Std.ExtTreeSet.contains_iff_mem] at hskip
    exact .inr ⟨hskip.1, hskip.2, rfl⟩

theorem seen_push (visited : SignatureSet) (e : WalkEntry) :
    seen start ⟨visited, p.entries.push e⟩ = p.seen start ++ [e.target] := by
  simp [seen]

theorem Tracks.visit (h : p.Tracks start) (stop : Progress → Bool) (depth : Nat)
    (source target : Signature) : (visit stop depth source p target).Tracks start := by
  rcases visit_cases stop depth source p target with ⟨-, hsame⟩ | ⟨-, hnew, hadd⟩
  · rwa [hsame]
  · rw [h.mem_visited] at hnew
    rw [hadd]
    constructor
    · rw [seen_push, List.nodup_append']
      exact ⟨h.nodup, by simp, by simpa using hnew⟩
    · intro s
      rw [mem_insert_iff, seen_push, List.mem_append, List.mem_singleton, h.mem_visited, or_comm]

def visitAll (stop : Progress → Bool) (depth : Nat) (links : List (Signature × Signature))
    (p : Progress) : Progress :=
  links.foldl (fun p link => visit stop depth link.1 p link.2) p

theorem Tracks.visitAll (h : p.Tracks start) (stop : Progress → Bool) (depth : Nat)
    (links : List (Signature × Signature)) : (visitAll stop depth links p).Tracks start := by
  induction links generalizing p with
  | nil => exact h
  | cons link links ih => exact ih (h.visit stop depth link.1 link.2)

theorem exists_reports (stop : Progress → Bool) (depth : Nat)
    (links : List (Signature × Signature)) (p : Progress) :
    ∃ new : List WalkEntry, (visitAll stop depth links p).entries.toList = p.entries.toList ++ new ∧
      ∀ e ∈ new, e.depth = depth ∧ (e.source, e.target) ∈ links := by
  induction links generalizing p with
  | nil => exact ⟨[], by simp [visitAll], by simp⟩
  | cons link links ih =>
    obtain ⟨new, hentries, hnew⟩ := ih (visit stop depth link.1 p link.2)
    have hlater : ∀ e ∈ new, e.depth = depth ∧ (e.source, e.target) ∈ link :: links :=
      fun e he => ⟨(hnew e he).1, List.mem_cons_of_mem link (hnew e he).2⟩
    rcases visit_cases stop depth link.1 p link.2 with ⟨-, hsame⟩ | ⟨-, -, hadd⟩
    · rw [hsame] at hentries
      exact ⟨new, by rw [visitAll, List.foldl_cons, hsame]; exact hentries, hlater⟩
    · refine ⟨⟨link.1, link.2, depth⟩ :: new, ?_, ?_⟩
      · change (visitAll stop depth links (visit stop depth link.1 p link.2)).entries.toList = _
        rw [hentries, hadd]
        simp
      · intro e he
        rcases List.mem_cons.mp he with rfl | he
        · exact ⟨rfl, List.mem_cons_self⟩
        · exact hlater e he

/-- Visits meet the signatures in their order, each once, until the limit is reached. -/
theorem seen_visitAll (depth : Nat) (links : List (Signature × Signature)) (h : p.Tracks start)
    (hroom : (p.seen start).length ≤ limit) :
    (visitAll (atLimit limit) depth links p).seen start =
      ((p.seen start ++ links.map Prod.snd).eraseDups).take limit := by
  induction links generalizing p with
  | nil =>
    rw [visitAll, List.foldl_nil, List.map_nil, List.append_nil, eraseDups_eq_self h.nodup,
      List.take_of_length_le hroom]
  | cons link links ih =>
    have hnext := h.visit (atLimit limit) depth link.1 link.2
    rw [visitAll, List.foldl_cons, ← visitAll, List.map_cons]
    rcases visit_cases (atLimit limit) depth link.1 p link.2 with
      ⟨hskip, hsame⟩ | ⟨hopen, hnew, hadd⟩
    · rw [hsame, ih h hroom]
      rcases hskip with hfull | hmem
      · have hlength : (p.seen start).length = limit := by
          simp only [atLimit, decide_eq_true_eq, h.size_visited] at hfull
          omega
        rw [eraseDups_append_of_nodup h.nodup, eraseDups_append_of_nodup h.nodup,
          List.take_left' hlength, List.take_left' hlength]
      · rw [eraseDups_append_cons_of_mem ((h.mem_visited link.2).mp hmem)]
    · have hseen : (visit (atLimit limit) depth link.1 p link.2).seen start =
          p.seen start ++ [link.2] := by rw [hadd, seen_push]
      have hfits : (p.seen start ++ [link.2]).length ≤ limit := by
        simp only [atLimit, decide_eq_true_eq, h.size_visited] at hopen
        simp only [List.length_append, List.length_singleton]
        omega
      rw [ih hnext (hseen ▸ hfits), hseen, List.append_assoc, List.singleton_append]

end Progress

/-! ### Levels -/

open Progress

def links (g : CallGraph) (direction : Direction) (level : List Signature) :
    List (Signature × Signature) :=
  level.flatMap fun s => (g.neighbours direction s).toList.map (s, ·)

theorem mem_links : (source, target) ∈ g.links direction level ↔
    source ∈ level ∧ target ∈ g.neighbours direction source := by
  simp [links]

theorem map_snd_links (g : CallGraph) (direction : Direction) (level : List Signature) :
    (g.links direction level).map Prod.snd =
      level.flatMap fun s => (g.neighbours direction s).toList := by
  simp [links, List.map_flatMap, Function.comp_def]

theorem walkLevel_eq_visitAll (g : CallGraph) (stop : Progress → Bool) (direction : Direction)
    (depth : Nat) (level : List Signature) (p : Progress) :
    g.walkLevel stop direction depth level p =
      visitAll stop depth (g.links direction level) p := by
  simp only [walkLevel, visitAll, links, List.foldl_flatMap, List.foldl_map]

/-- The report is at its distance from the start, and what it comes from is one step nearer. -/
def Shortest (g : CallGraph) (direction : Direction) (start : Signature) (e : WalkEntry) : Prop :=
  g.Distance direction start e.depth e.target ∧
    ∃ n, e.depth = n + 1 ∧ g.Distance direction start n e.source ∧
      e.target ∈ g.neighbours direction e.source

/-- The state of a walk before it takes another step: it has seen the first signatures of the
order, and if these are all so far from the start, it goes on from the last layer. -/
structure Stage (g : CallGraph) (direction : Direction) (start : Signature) (limit n : Nat)
    (level : List Signature) (p : Progress) : Prop where
  tracks : p.Tracks start
  seen : p.seen start = (g.breadthFirst direction start n).take limit
  level : (g.breadthFirst direction start n).length < limit → level = g.layer direction start n
  shortest : ∀ e ∈ p.entries.toList, g.Shortest direction start e

theorem stage_start (hlimit : 0 < limit) :
    g.Stage direction start limit 0 [start] { visited := {start} } where
  tracks := tracks_start start
  seen := by
    rw [breadthFirst, List.take_of_length_le hlimit]
    rfl
  level := fun _ => rfl
  shortest := by simp

/-- What is met next while there is room is one step farther than the level. -/
theorem shortest_of_new {e : WalkEntry} (hdepth : e.depth = n + 1)
    (hlink : (e.source, e.target) ∈ g.links direction (g.layer direction start n))
    (hnew : e.target ∉ g.breadthFirst direction start n) : g.Shortest direction start e := by
  obtain ⟨hsource, hnext⟩ := mem_links.mp hlink
  have hdistance := mem_layer.mp hsource
  refine ⟨⟨hdepth ▸ .step hdistance.1 hnext, fun m hm hpath => ?_⟩, n, hdepth, hdistance, hnext⟩
  exact hnew (mem_breadthFirst.mpr ⟨m, by omega, hpath⟩)

/-- What a level adds to the reports, and what has been seen after it. -/
theorem Stage.exists_new (h : g.Stage direction start limit n level p) :
    let next := g.walkLevel (atLimit limit) direction (n + 1) level p
    ∃ new : List WalkEntry, next.Tracks start ∧
      next.entries.toList = p.entries.toList ++ new ∧
      (∀ e ∈ new, e.depth = n + 1 ∧ (e.source, e.target) ∈ g.links direction level) ∧
      next.seen start = p.seen start ++ new.map WalkEntry.target ∧
      next.seen start = (p.seen start ++ level.flatMap fun s =>
        (g.neighbours direction s).toList).eraseDups.take limit := by
  intro next
  have hnext : next = visitAll (atLimit limit) (n + 1) (g.links direction level) p :=
    walkLevel_eq_visitAll g (atLimit limit) direction (n + 1) level p
  obtain ⟨new, hentries, hnew⟩ := exists_reports (atLimit limit) (n + 1)
    (g.links direction level) p
  rw [← hnext] at hentries
  have hroom : (p.seen start).length ≤ limit := by
    rw [h.seen]
    exact List.length_take_le _ _
  have hseen := seen_visitAll (n + 1) (g.links direction level) h.tracks hroom
  rw [← hnext, map_snd_links] at hseen
  refine ⟨new, hnext ▸ h.tracks.visitAll _ _ _, hentries, hnew, ?_, hseen⟩
  simp [Progress.seen, hentries]

theorem Stage.step (h : g.Stage direction start limit n level p) :
    let next := g.walkLevel (atLimit limit) direction (n + 1) level p
    g.Stage direction start limit (n + 1)
      ((next.entries.toList.drop p.entries.size).map WalkEntry.target) next := by
  dsimp only
  obtain ⟨new, htracks, hentries, hnew, hgrown, hseen⟩ := h.exists_new
  generalize g.walkLevel (atLimit limit) direction (n + 1) level p = next at *
  have hfresh : (next.entries.toList.drop p.entries.size).map WalkEntry.target =
      new.map WalkEntry.target := by
    rw [hentries, ← Array.length_toList, List.drop_left]
  have hmore : g.breadthFirst direction start (n + 1) =
    g.breadthFirst direction start n ++ g.layer direction start (n + 1) :=
      breadthFirst_append_layer n
  rw [hfresh]
  by_cases hfull : limit ≤ (g.breadthFirst direction start n).length
  · -- Nothing more is seen, however far the order goes on.
    have hlength : (p.seen start).length = limit := by
      rw [h.seen, List.length_take_of_le hfull]
    rw [eraseDups_append_of_nodup h.tracks.nodup, List.take_left' hlength] at hseen
    have hnone : new = [] := by
      rw [hseen] at hgrown
      simpa using hgrown
    refine ⟨htracks, ?_, fun hopen => ?_, ?_⟩
    · rw [hseen, h.seen, hmore, List.take_append_of_le_length hfull]
    · rw [hmore, List.length_append] at hopen
      omega
    · rw [hentries, hnone, List.append_nil]
      exact h.shortest
  · have hopen : (g.breadthFirst direction start n).length < limit := by omega
    have hall : p.seen start = g.breadthFirst direction start n := by
      rw [h.seen, List.take_of_length_le hopen.le]
    have hlevel := h.level hopen
    rw [hall, hlevel, ← breadthFirst_succ] at hseen
    rw [hall] at hgrown
    refine ⟨htracks, hseen, fun hstill => ?_, fun e he => ?_⟩
    · rw [List.take_of_length_le hstill.le, hgrown, hmore] at hseen
      exact List.append_cancel_left hseen
    · rw [hentries, List.mem_append] at he
      rcases he with he | he
      · exact h.shortest e he
      · have hdisjoint := (List.nodup_append'.mp (hgrown ▸ htracks.nodup)).2.2
        apply shortest_of_new (hnew e he).1 (hlevel ▸ (hnew e he).2)
        intro hold
        exact hdisjoint hold (List.mem_map_of_mem he)

theorem Stage.run (h : g.Stage direction start limit n level p) (steps : Nat) :
    ∃ last, g.Stage direction start limit (n + steps) last
      (g.walkFrom (atLimit limit) direction steps n level p) := by
  induction steps generalizing n level p with
  | zero => exact ⟨level, h⟩
  | succ steps ih =>
    rw [walkFrom, show n + (steps + 1) = n + 1 + steps by omega]
    exact ih h.step

theorem exists_stage_walkUntil (hlimit : 0 < limit) (maxDepth : Nat) :
    ∃ last p, g.Stage direction start limit (clampDepth maxDepth) last p ∧
      p.entries.toList = g.walkUntil (atLimit limit) start direction maxDepth := by
  obtain ⟨last, h⟩ := (stage_start (g := g) hlimit).run (clampDepth maxDepth)
  rw [Nat.zero_add] at h
  exact ⟨last, _, h, rfl⟩

/-! ### The two bounds -/

section Congruence

variable {stop' : Progress → Bool} (hstop : ∀ p : Progress, p.Tracks start → stop p = stop' p)

include hstop

theorem visitAll_congr (depth : Nat) (links : List (Signature × Signature)) (h : p.Tracks start) :
    visitAll stop depth links p = visitAll stop' depth links p := by
  induction links generalizing p with
  | nil => rfl
  | cons link links ih =>
    have hvisit : visit stop depth link.1 p link.2 = visit stop' depth link.1 p link.2 := by
      rw [visit, visit, hstop p h]
    have hnext := h.visit stop' depth link.1 link.2
    calc visitAll stop depth (link :: links) p
        = visitAll stop depth links (visit stop' depth link.1 p link.2) := by rw [← hvisit]; rfl
      _ = visitAll stop' depth (link :: links) p := ih hnext

theorem walkFrom_congr (steps depth : Nat) (level : List Signature) (h : p.Tracks start) :
    g.walkFrom stop direction steps depth level p =
      g.walkFrom stop' direction steps depth level p := by
  induction steps generalizing depth level p with
  | zero => rfl
  | succ steps ih =>
    have hlevel : g.walkLevel stop direction (depth + 1) level p =
        g.walkLevel stop' direction (depth + 1) level p := by
      rw [walkLevel_eq_visitAll, walkLevel_eq_visitAll, visitAll_congr hstop _ _ h]
    have hnext : (g.walkLevel stop' direction (depth + 1) level p).Tracks start := by
      rw [walkLevel_eq_visitAll]
      exact h.visitAll _ _ _
    rw [walkFrom, walkFrom, hlevel]
    exact ih _ _ hnext

end Congruence

/-- There are more signatures seen than reports, and more reports are allowed than signatures. -/
theorem isFull_eq_atLimit (h : p.Tracks start) : p.isFull = p.atLimit maxVisited := by
  have hsize : p.visited.size = p.entries.size + 1 := by
    rw [h.size_visited]
    simp [Progress.seen]
  have hbounds : maxVisited ≤ maxEntries := by decide
  rw [Bool.eq_iff_iff]
  simp only [isFull, atLimit, Bool.or_eq_true, decide_eq_true_eq]
  omega

theorem walk_eq_walkUntil (g : CallGraph) (start : Signature) (direction : Direction)
    (maxDepth : Nat) : g.walk start direction maxDepth =
      g.walkUntil (atLimit maxVisited) start direction maxDepth := by
  unfold walk walkUntil
  rw [walkFrom_congr (fun _ => isFull_eq_atLimit) _ _ _ (tracks_start start)]

/-! ### Walks -/

theorem exists_stage_walk (g : CallGraph) (start : Signature) (direction : Direction)
    (maxDepth : Nat) :
    ∃ last p, g.Stage direction start maxVisited (clampDepth maxDepth) last p ∧
      p.entries.toList = g.walk start direction maxDepth := by
  rw [walk_eq_walkUntil]
  exact exists_stage_walkUntil (by decide) maxDepth

theorem targets_walk (g : CallGraph) (start : Signature) (direction : Direction) (maxDepth : Nat) :
    start :: (g.walk start direction maxDepth).map WalkEntry.target =
      (g.breadthFirst direction start (clampDepth maxDepth)).take maxVisited := by
  obtain ⟨last, p, h, hentries⟩ := exists_stage_walk g start direction maxDepth
  rw [← hentries, ← h.seen]
  rfl

theorem shortest_walk (g : CallGraph) (start : Signature) (direction : Direction) (maxDepth : Nat) :
    ∀ e ∈ g.walk start direction maxDepth, g.Shortest direction start e := by
  obtain ⟨last, p, h, hentries⟩ := exists_stage_walk g start direction maxDepth
  exact hentries ▸ h.shortest

theorem length_walk (g : CallGraph) (start : Signature) (direction : Direction) (maxDepth : Nat) :
    (g.walk start direction maxDepth).length =
      min (g.near direction start (clampDepth maxDepth)).ncard (maxVisited - 1) := by
  have hlength := congrArg List.length (targets_walk g start direction maxDepth)
  have hnear : (g.near direction start (clampDepth maxDepth)).ncard + 1 =
      (g.breadthFirst direction start (clampDepth maxDepth)).length := ncard_near _
  simp only [List.length_cons, List.length_map, List.length_take, ← hnear] at hlength
  omega

/-- A walk that has room for all reports exactly what is near, at its distance. -/
theorem reported_iff {maxDepth k : Nat} {t : Signature}
    (hroom : (g.near direction start (clampDepth maxDepth)).ncard < maxVisited) :
    (∃ e ∈ g.walk start direction maxDepth, e.target = t ∧ e.depth = k) ↔
      1 ≤ k ∧ k ≤ clampDepth maxDepth ∧ g.Distance direction start k t := by
  have hall : start :: (g.walk start direction maxDepth).map WalkEntry.target =
      g.breadthFirst direction start (clampDepth maxDepth) := by
    rw [targets_walk, List.take_of_length_le]
    rw [← ncard_near]
    omega
  have hnodup : (start :: (g.walk start direction maxDepth).map WalkEntry.target).Nodup :=
    hall ▸ nodup_breadthFirst _
  constructor
  · rintro ⟨e, he, rfl, rfl⟩
    obtain ⟨hdistance, n, hdepth, -⟩ := shortest_walk g start direction maxDepth e he
    have hmem : e.target ∈ g.breadthFirst direction start (clampDepth maxDepth) := by
      rw [← hall]
      exact List.mem_cons_of_mem _ (List.mem_map_of_mem he)
    obtain ⟨m, hm, hpath⟩ := mem_breadthFirst.mp hmem
    have hle : e.depth ≤ m := Nat.le_of_not_lt fun hlt => hdistance.2 m hlt hpath
    exact ⟨by omega, by omega, hdistance⟩
  · rintro ⟨hpos, hle, hdistance⟩
    have hmem : t ∈ g.breadthFirst direction start (clampDepth maxDepth) :=
      mem_breadthFirst.mpr ⟨k, hle, hdistance.1⟩
    rw [← hall, List.mem_cons] at hmem
    rcases hmem with rfl | hmem
    · exact absurd (.refl t) (hdistance.2 0 hpos)
    · obtain ⟨e, he, rfl⟩ := List.mem_map.mp hmem
      exact ⟨e, he, rfl, (shortest_walk g start direction maxDepth e he).1.unique hdistance⟩

/-- A walk is a breadth-first search that goes `clampDepth` steps far and sees `maxVisited`
signatures at most. The bound on the number of reports changes nothing. In a graph whose indices
hold the same edges, walks that have room for all agree from both ends of a path. -/
theorem walk_breadthFirst :
    (∀ (g : CallGraph) (start : Signature) (direction : Direction) (maxDepth : Nat),
      let order := g.breadthFirst direction start (clampDepth maxDepth)
      let near := g.near direction start (clampDepth maxDepth)
      let found := g.walk start direction maxDepth
      (∀ t, t ∈ order ↔ t = start ∨ t ∈ near) ∧
      start :: found.map WalkEntry.target = order.take maxVisited ∧
      (start :: found.map WalkEntry.target).Nodup ∧
      found.length = min near.ncard (maxVisited - 1) ∧
      (∀ e ∈ found, g.Shortest direction start e) ∧
      found = g.walkUntil (Progress.atLimit maxVisited) start direction maxDepth) ∧
    ∀ (c : Construction) (a b : Signature) (maxDepth : Nat),
      (c.graph.near .callees a (clampDepth maxDepth)).ncard < maxVisited →
      (c.graph.near .callers b (clampDepth maxDepth)).ncard < maxVisited →
      ∀ k, (∃ e ∈ c.graph.walk a .callees maxDepth, e.target = b ∧ e.depth = k) ↔
        ∃ e ∈ c.graph.walk b .callers maxDepth, e.target = a ∧ e.depth = k := by
  constructor
  · intro g start direction maxDepth order near found
    have htargets := targets_walk g start direction maxDepth
    refine ⟨fun t => mem_breadthFirst_iff_near, htargets, ?_, ?_, ?_, ?_⟩
    · rw [htargets]
      exact (nodup_breadthFirst _).take
    · exact length_walk g start direction maxDepth
    · exact shortest_walk g start direction maxDepth
    · exact walk_eq_walkUntil g start direction maxDepth
  · intro c a b maxDepth hcallees hcallers k
    rw [reported_iff hcallees, reported_iff hcallers, distance_callees_iff c.inv_graph]

section Cycle

def cycle : Construction := .extend .empty [
  (.staticInit "Main", .staticInit "A"), (.staticInit "A", .staticInit "B"),
  (.staticInit "B", .staticInit "A"), (.staticInit "Unused", .staticInit "B")]

theorem walk_breadthFirst_cycle :
    let g := cycle.graph
    (g.near .callees (.staticInit "Main") (clampDepth 10)).ncard < maxVisited ∧
      (g.near .callers (.staticInit "B") (clampDepth 10)).ncard < maxVisited ∧
      (∃ e ∈ g.walk (.staticInit "Main") .callees 10, e.target = .staticInit "B" ∧ e.depth = 2) ∧
      ∃ e ∈ g.walk (.staticInit "B") .callers 10, e.target = .staticInit "Main" ∧ e.depth = 2 := by
  intro g
  have hcallees : (g.near .callees (.staticInit "Main") (clampDepth 10)).ncard + 1 = 3 :=
    (ncard_near _).trans (by decide +kernel)
  have hcallers : (g.near .callers (.staticInit "B") (clampDepth 10)).ncard + 1 = 4 :=
    (ncard_near _).trans (by decide +kernel)
  have hforward : ∃ e ∈ g.walk (.staticInit "Main") .callees 10,
      e.target = .staticInit "B" ∧ e.depth = 2 := by decide +kernel
  have hroom : 4 ≤ maxVisited := by decide
  have hfits : (g.near .callees (.staticInit "Main") (clampDepth 10)).ncard < maxVisited := by omega
  have hfits' : (g.near .callers (.staticInit "B") (clampDepth 10)).ncard < maxVisited := by omega
  exact ⟨hfits, hfits', hforward, (walk_breadthFirst.2 cycle _ _ 10 hfits hfits' 2).mp hforward⟩

end Cycle

end CallGraph

end JavaCallGraph
