import JavaCallGraph.Graph.Artifact
import JavaCallGraph.Proofs.DocumentRoundTrip

/-!
# Artifacts are found where they were written

The directories that are made for a path can be followed along that path afterwards, and a new
file in the last of them is found under the path with its name added. So a document that is written
as an artifact is read back from the path that the writing tells.
-/

namespace JavaCallGraph

theorem Utf8.decode?_toUTF8 (text : String) : decode? text.toUTF8 = some text :=
  dif_pos text.isValidUTF8

namespace Place

variable {place : Place} {part : String}

theorem isAbove_parent (h : place.isAbove) : place.parent.isAbove := by
  unfold parent
  split
  · rfl
  · next hroot =>
    simp only [isAbove, Bool.or_eq_true, List.all_eq_true] at h ⊢
    left
    intro name hname
    rcases List.mem_append.mp hname with hname | hname
    · exact h.resolve_right hroot name hname
    · simp [List.mem_singleton.mp hname]

theorem isAbove_append (hdots : part ≠ "..") (hslash : part ≠ "/") :
    isAbove (place ++ [part]) = false := by
  have hroot : place ++ [part] ≠ root := by
    intro h
    cases place with
    | nil => exact hslash (List.cons.inj h).1
    | cons name rest => simp [root] at h
  simp [isAbove, hdots, hroot]

theorem parent_append (hdots : part ≠ "..") (hslash : part ≠ "/") :
    parent (place ++ [part]) = place := by
  have habove : isAbove (place ++ [part]) = false := isAbove_append hdots hslash
  have hroot : (place ++ [part] == root) = false := by
    simp only [isAbove, Bool.or_eq_false_iff] at habove
    exact habove.2
  rw [parent, hroot, habove]
  simp

end Place

namespace FileTree

variable {t t' : FileTree} {place q : Place} {parts : List String} {part : String}

theorem entryAt?_put (t : FileTree) (place : Place) (entry : FileEntry) (q : Place) :
    (t.put place entry).entryAt? q =
      if q.isAbove then some .dir else if place = q then some entry else t.entries[q]? := by
  unfold entryAt? put
  split
  · rfl
  · rw [Std.ExtTreeMap.getElem?_insert]
    simp [Std.LawfulEqCmp.compare_eq_iff_eq]

theorem entryAt?_put_of_free (h : t.existsAt place = false) (entry : FileEntry) (q : Place) :
    (t.put place entry).entryAt? q = if place = q then some entry else t.entryAt? q := by
  have hplace : place.isAbove = false := by
    cases habove : place.isAbove with
    | false => rfl
    | true => simp [existsAt, entryAt?, habove] at h
  rw [entryAt?_put]
  by_cases hq : place = q
  · simp [← hq, hplace]
  · rw [if_neg hq, if_neg hq]
    rfl

theorem isDirAt_iff : t.isDirAt place ↔ t.entryAt? place = some .dir := by
  unfold isDirAt
  split
  · next h => simp [h]
  · next h => simpa using h

def DirsStay (t t' : FileTree) : Prop := ∀ q, t.isDirAt q → t'.isDirAt q

theorem dirsStay_put (h : t.existsAt place = false) (entry : FileEntry) :
    t.DirsStay (t.put place entry) := by
  intro q hq
  rw [isDirAt_iff] at hq ⊢
  have hne : place ≠ q := by
    rintro rfl
    simp [existsAt, hq] at h
  rw [entryAt?_put, if_neg hne]
  exact hq

def Rooted (t : FileTree) (place : Place) : Prop := ∀ k, t.isDirAt (Place.parent^[k] place)

theorem rooted_of_isAbove (h : place.isAbove) : t.Rooted place := by
  intro k
  induction k generalizing place with
  | zero => simp [isDirAt, entryAt?, h]
  | succ k ih => exact ih (Place.isAbove_parent h)

theorem Rooted.isDirAt (h : t.Rooted place) : t.isDirAt place := h 0

theorem Rooted.parent (h : t.Rooted place) : t.Rooted place.parent := fun k => h (k + 1)

theorem Rooted.mono (h : t.Rooted place) (hstay : t.DirsStay t') : t'.Rooted place :=
  fun k => hstay _ (h k)

theorem Rooted.append (h : t.Rooted place) (hdots : part ≠ "..") (hslash : part ≠ "/")
    (hdir : t.isDirAt (place ++ [part])) : t.Rooted (place ++ [part]) := by
  intro k
  cases k with
  | zero => exact hdir
  | succ k =>
    rw [Function.iterate_succ_apply, Place.parent_append hdots hslash]
    exact h k

/-! ### Following a path -/

theorem follow_cons (hplace : t.isDirAt place) (part : String) (rest : List String) :
    t.follow place (part :: rest) =
      if part == "" || part == "." then t.follow place rest
      else if part == ".." then t.follow place.parent rest
      else t.follow (place ++ [part]) rest := by
  rw [follow, if_pos hplace]

theorem follow_append (xs ys : List String) :
    t.follow place (xs ++ ys) = (t.follow place xs).bind fun q => t.follow q ys := by
  induction xs generalizing place with
  | nil => rfl
  | cons part xs ih =>
    rw [List.cons_append, follow, follow]
    split
    · split
      · exact ih
      · split
        · exact ih
        · exact ih
    · rfl

theorem follow_mono (hstay : t.DirsStay t') (h : t.follow place parts = some q) :
    t'.follow place parts = some q := by
  induction parts generalizing place with
  | nil => exact h
  | cons part rest ih =>
    rw [follow] at h
    split at h
    · next hplace =>
      rw [follow_cons (hstay _ hplace)]
      split at h
      · next hskip =>
        rw [if_pos hskip]
        exact ih h
      · next hskip =>
        rw [if_neg hskip]
        split at h
        · next hup =>
          rw [if_pos hup]
          exact ih h
        · next hup =>
          rw [if_neg hup]
          exact ih h
    · cases h

theorem isDirAt_of_follow (h : t.follow place parts = some q) (hq : t.isDirAt q) :
    t.isDirAt place := by
  cases parts with
  | nil =>
    cases h
    exact hq
  | cons part rest =>
    rw [follow] at h
    split at h
    · assumption
    · cases h

/-- Empty parts and dots can be left out on the way to a directory. -/
theorem follow_of_follow_filter (h : t.follow place (parts.filter fun part =>
    part != "" && part != ".") = some q) (hq : t.isDirAt q) : t.follow place parts = some q := by
  induction parts generalizing place with
  | nil => exact h
  | cons part rest ih =>
    have hplace := isDirAt_of_follow h hq
    rw [follow_cons hplace]
    by_cases hskip : (part == "" || part == ".") = true
    · have hdrop : (part != "" && part != ".") = false := by
        simpa [bne, ← Bool.not_or] using hskip
      rw [List.filter_cons, if_neg (by simp [hdrop])] at h
      rw [if_pos hskip]
      exact ih h
    · have hkeep : (part != "" && part != ".") = true := by
        simpa [bne, ← Bool.not_or] using hskip
      rw [List.filter_cons, if_pos hkeep, follow_cons hplace, if_neg hskip] at h
      rw [if_neg hskip]
      split at h
      · next hup =>
        rw [if_pos hup]
        exact ih h
      · next hup =>
        rw [if_neg hup]
        exact ih h

/-! ### Making directories -/

/-- The directories that were made for the parts of a path lead there. -/
theorem of_makeDirs (hparts : ∀ part ∈ parts, part ≠ "/") (hplace : t.Rooted place)
    (h : t.makeDirs place parts = (t', some q)) :
    t.DirsStay t' ∧ t'.Rooted q ∧ t'.follow place parts = some q := by
  induction parts generalizing t place with
  | nil =>
    cases h
    exact ⟨fun _ => id, hplace, rfl⟩
  | cons part rest ih =>
    have hslash := hparts part List.mem_cons_self
    have hrest : ∀ part ∈ rest, part ≠ "/" := fun p hp => hparts p (List.mem_cons_of_mem part hp)
    rw [makeDirs] at h
    split at h
    · next hskip =>
      obtain ⟨hstay, hq, hfollow⟩ := ih hrest hplace h
      rw [follow_cons (hstay _ hplace.isDirAt), if_pos hskip]
      exact ⟨hstay, hq, hfollow⟩
    · next hskip =>
      split at h
      · next hup =>
        obtain ⟨hstay, hq, hfollow⟩ := ih hrest hplace.parent h
        rw [follow_cons (hstay _ hplace.isDirAt), if_neg hskip, if_pos hup]
        exact ⟨hstay, hq, hfollow⟩
      · next hup =>
        have hdots : part ≠ ".." := by simpa using hup
        -- Whether it was there or is made now, the next directory is rooted.
        have hnext {made : FileTree} (hmade : t.DirsStay made)
            (hdir : made.isDirAt (place ++ [part]))
            (h : made.makeDirs (place ++ [part]) rest = (t', some q)) :
            t.DirsStay t' ∧ t'.Rooted q ∧ t'.follow place (part :: rest) = some q := by
          have hrooted := (hplace.mono hmade).append hdots hslash hdir
          obtain ⟨hstay, hq, hfollow⟩ := ih hrest hrooted h
          have hall : t.DirsStay t' := fun q hq => hstay q (hmade q hq)
          rw [follow_cons (hall _ hplace.isDirAt), if_neg hskip, if_neg hup]
          exact ⟨hall, hq, hfollow⟩
        dsimp only at h
        split at h
        · next hentry => exact hnext (fun _ => id) (isDirAt_iff.mpr hentry) h
        · cases h
        · next hentry =>
          split at h
          · cases h
          · refine hnext (dirsStay_put (by simp [existsAt, hentry]) .dir) ?_ h
            rw [isDirAt_iff, entryAt?_put, Place.isAbove_append hdots hslash]
            simp

theorem not_mem_of_mem_splitOn {c : Char} {cs piece : List Char} (h : piece ∈ cs.splitOn c) :
    c ∉ piece := by
  induction cs generalizing piece with
  | nil =>
    rw [List.splitOn_nil, List.mem_singleton] at h
    simp [h]
  | cons d cs ih =>
    rw [List.splitOn_cons_eq_if_modifyHead] at h
    split at h
    · rcases List.mem_cons.mp h with rfl | h
      · simp
      · exact ih h
    · next hd =>
      obtain ⟨first, others, hsplit⟩ := List.exists_cons_of_ne_nil (List.splitOn_ne_nil c cs)
      rw [hsplit] at h ih
      rcases List.mem_cons.mp h with rfl | h
      · rw [List.mem_cons, not_or]
        exact ⟨fun heq => hd (by simp [heq]), ih List.mem_cons_self⟩
      · exact ih (List.mem_cons_of_mem first h)

theorem isPath_iff {path : String} :
    isPath path ↔ path.utf8ByteSize ≤ maxPathSize ∧ '\x00' ∉ path.toList := by
  unfold isPath
  rw [Bool.and_eq_true, decide_eq_true_iff]
  simp

theorem pathParts?_eq_some_iff {path : String} {start : Place} :
    pathParts? path = some (start, parts) ↔ path ≠ "" ∧ isPath path ∧
      (if path.toList.head? = some '/' then Place.root else []) = start ∧
      (path.toList.splitOn '/').map String.ofList = parts := by
  unfold pathParts?
  split
  · next h =>
    simp only [Bool.or_eq_true, String.isEmpty_iff, Bool.not_eq_true'] at h
    constructor
    · rintro ⟨⟩
    · rintro ⟨hne, hpath, -⟩
      rcases h with h | h
      · exact absurd h hne
      · rw [hpath] at h
        cases h
  · next h =>
    simp only [Bool.or_eq_true, String.isEmpty_iff, Bool.not_eq_true', not_or,
      Bool.not_eq_false] at h
    simp [h, String.front?_eq]

theorem of_pathParts? {path : String} {start : Place}
    (h : pathParts? path = some (start, parts)) : start.isAbove ∧ ∀ part ∈ parts, part ≠ "/" := by
  obtain ⟨-, -, rfl, rfl⟩ := pathParts?_eq_some_iff.mp h
  constructor
  · split
    · rfl
    · rfl
  · rintro _ hpart rfl
    obtain ⟨piece, hpiece, heq⟩ := List.mem_map.mp hpart
    have hmem : '/' ∈ (String.ofList piece).toList := by simp [heq]
    rw [String.toList_ofList] at hmem
    exact not_mem_of_mem_splitOn hpiece hmem

theorem dropLast_append_getLast?_toList (names : List String) :
    names.dropLast ++ names.getLast?.toList = names := by
  cases hlast : names.getLast? with
  | none => simp [List.getLast?_eq_none_iff.mp hlast]
  | some last => exact List.dropLast_append_getLast? last hlast

theorem of_createDirs {path : String} (h : t.createDirs path = (t', some q)) :
    ∃ start parts, pathParts? path = some (start, parts) ∧ t'.isDirAt q ∧
      t'.follow start parts = some q := by
  unfold createDirs at h
  split at h
  · cases h
  · next start parts hpath =>
    obtain ⟨hstart, hparts⟩ := of_pathParts? hpath
    refine ⟨start, parts, hpath, ?_⟩
    dsimp only at h
    generalize hnames : (parts.filter fun part => part != "" && part != ".") = names at h
    have hslash : ∀ part ∈ names, part ≠ "/" := by
      intro part hpart
      rw [← hnames] at hpart
      exact hparts part (List.mem_filter.mp hpart).1
    have hsplit := dropLast_append_getLast?_toList names
    -- It is enough to follow the names, in two stages as they were made.
    have hreach (hq : t'.isDirAt q) {mid : Place}
        (hfront : t'.follow start names.dropLast = some mid)
        (hlast : t'.follow mid names.getLast?.toList = some q) :
        t'.follow start parts = some q := by
      refine follow_of_follow_filter ?_ hq
      rw [hnames, ← hsplit, follow_append, hfront]
      exact hlast
    split at h
    · cases h
    · next made mid hmade =>
      obtain ⟨-, hrooted, hfollow⟩ := of_makeDirs (fun part hpart =>
        hslash part ((List.dropLast_sublist names).mem hpart)) (rooted_of_isAbove hstart) hmade
      split at h
      · obtain ⟨rfl, hq⟩ := Prod.mk.inj h
        obtain ⟨hlast, hdir⟩ := Option.filter_eq_some_iff.mp hq
        exact ⟨hdir, hreach hdir hfollow hlast⟩
      · obtain ⟨hstay, hq, hlast⟩ := of_makeDirs (fun part hpart =>
          hslash part (List.mem_of_mem_getLast? (Option.mem_toList.mp hpart))) hrooted h
        exact ⟨hq.isDirAt, hreach hq.isDirAt (follow_mono hstay hfollow) hlast⟩

/-! ### Adding a name to a path -/

/-- The path of a directory with a name added leads through the directory. -/
theorem exists_pathParts?_join {dir n : String} {start : Place}
    (hdir : pathParts? dir = some (start, parts)) (hfollow : t.follow start parts = some place)
    (hslash : '/' ∉ n.toList) (hpath : isPath (join dir n)) :
    ∃ front, pathParts? (join dir n) = some (start, front ++ [n]) ∧
      t.follow start front = some place := by
  obtain ⟨hne, -, rfl, rfl⟩ := pathParts?_eq_some_iff.mp hdir
  have hn : (n.toList.splitOn '/').map String.ofList = [n] := by
    simp [List.splitOn_eq_singleton hslash]
  have hhead (rest : List Char) : (dir.toList ++ rest).head? = dir.toList.head? :=
    List.head?_append_of_ne_nil _ (by simpa using hne)
  by_cases hend : dir.endsWith "/"
  · have hjoin : join dir n = dir ++ n := by simp [join, hend]
    obtain ⟨front, hfront⟩ : ['/'] <:+ dir.toList := by
      simpa using String.Slice.endsWith_string_iff.mp (show dir.toSlice.endsWith "/" from hend)
    have hlist : (dir ++ n).toList = front ++ '/' :: n.toList := by simp [← hfront]
    refine ⟨(front.splitOn '/').map String.ofList, ?_, ?_⟩
    · rw [hjoin] at hpath ⊢
      refine pathParts?_eq_some_iff.mpr ⟨by simp [hne], hpath, ?_, ?_⟩
      · rw [String.toList_append, hhead]
      · rw [hlist, List.splitOn_append_cons_self, List.map_append, hn]
    · -- The last slash of the directory contributes an empty part.
      have hparts : (dir.toList.splitOn '/').map String.ofList =
          (front.splitOn '/').map String.ofList ++ [""] := by
        rw [← hfront, List.splitOn_append_cons_self, List.map_append]
        rfl
      rw [hparts, follow_append, Option.bind_eq_some_iff] at hfollow
      obtain ⟨mid, hmid, hlast⟩ := hfollow
      rw [follow] at hlast
      split at hlast
      · cases hlast
        exact hmid
      · cases hlast
  · have hjoin : join dir n = dir ++ "/" ++ n := by simp [join, hend, hne]
    have hlist : (dir ++ "/" ++ n).toList = dir.toList ++ '/' :: n.toList := by simp
    refine ⟨(dir.toList.splitOn '/').map String.ofList, ?_, hfollow⟩
    rw [hjoin] at hpath ⊢
    refine pathParts?_eq_some_iff.mpr ⟨by simp, hpath, ?_, ?_⟩
    · rw [hlist, hhead]
    · rw [hlist, List.splitOn_append_cons_self, List.map_append, hn]

/-- A name in a directory that was made is reached by the path of the directory with the name
added, also if no directory is named. -/
theorem exists_pathParts?_of_createDirAll {made : FileTree} {dir n : String}
    (hmade : t.createDirAll dir = (made, .ok place)) (hslash : '/' ∉ n.toList) (hne : n ≠ "")
    (hpath : isPath (join dir n)) :
    ∃ start front, pathParts? (join dir n) = some (start, front ++ [n]) ∧
      made.follow start front = some place ∧ made.isDirAt place := by
  unfold createDirAll at hmade
  split at hmade
  · next hempty =>
    cases hmade
    have hjoin : join dir n = n := by simp [join, String.isEmpty_iff.mp hempty]
    have hstart : n.toList.head? ≠ some '/' := fun h => hslash (List.mem_of_mem_head? h)
    rw [hjoin] at hpath ⊢
    refine ⟨[], [], pathParts?_eq_some_iff.mpr ⟨hne, hpath, if_neg hstart, ?_⟩, rfl, rfl⟩
    simp [List.splitOn_eq_singleton hslash]
  · split at hmade
    · next made' place' hcreate =>
      cases hmade
      obtain ⟨start, parts, hdir, hplace, hfollow⟩ := of_createDirs hcreate
      obtain ⟨front, hjoin, hfront⟩ := exists_pathParts?_join hdir hfollow hslash hpath
      exact ⟨start, front, hjoin, hfront, hplace⟩
    · cases hmade

/-! ### Adding a file -/

section NewFile

variable {path n : String} {start : Place} {front : List String}

/-- A new file is found under the path of its directory with its name added. -/
theorem locate?_put (hpath : pathParts? path = some (start, front ++ [n]))
    (hfollow : t.follow start front = some place) (hplace : t.isDirAt place)
    (hfree : t.existsAt (place ++ [n]) = false) (hne : n ≠ "") (hdot : n ≠ ".") (hdots : n ≠ "..")
    (entry : FileEntry) :
    (t.put (place ++ [n]) entry).locate? path = some (place ++ [n]) := by
  have hstay := dirsStay_put hfree entry
  have hexists : (t.put (place ++ [n]) entry).existsAt (place ++ [n]) := by
    simp [existsAt, entryAt?_put_of_free hfree]
  have hlast : (t.put (place ++ [n]) entry).follow place [n] = some (place ++ [n]) := by
    rw [follow_cons (hstay _ hplace)]
    simp [hne, hdot, hdots, follow]
  simp [locate?, hpath, follow_append, follow_mono hstay hfollow, hlast, hexists]

theorem bytes?_put (hpath : pathParts? path = some (start, front ++ [n]))
    (hfollow : t.follow start front = some place) (hplace : t.isDirAt place)
    (hfree : t.existsAt (place ++ [n]) = false) (hne : n ≠ "") (hdot : n ≠ ".") (hdots : n ≠ "..")
    (bytes : ByteArray) : (t.put (place ++ [n]) (.file bytes)).bytes? path = some bytes := by
  have hlocate := locate?_put hpath hfollow hplace hfree hne hdot hdots (.file bytes)
  simp [bytes?, hlocate, bytesAt?, entryAt?_put_of_free hfree]

end NewFile

end FileTree

namespace Artifact

theorem name_spec (generatedAt suffix : Nat) :
    '/' ∉ (name generatedAt suffix).toList ∧ (name generatedAt suffix).toList.head? = some 'c' := by
  have hdigits (n : Nat) : '/' ∉ (toString n).toList := by
    rw [Nat.toString_eq_ofList_toDigits, String.toList_ofList]
    intro hmem
    have hdigit := Nat.isDigit_of_mem_toDigits (by decide) (by decide) hmem
    cases hdigit
  unfold name
  split
  · change '/' ∉ ("callgraph-" ++ toString generatedAt ++ ".json").toList ∧
      ("callgraph-" ++ toString generatedAt ++ ".json").toList.head? = some 'c'
    simp only [String.toList_append, List.mem_append, hdigits]
    simp
  · change '/' ∉ ("callgraph-" ++ toString generatedAt ++ "-" ++ toString suffix ++
      ".json").toList ∧ ("callgraph-" ++ toString generatedAt ++ "-" ++ toString suffix ++
      ".json").toList.head? = some 'c'
    simp only [String.toList_append, List.mem_append, hdigits]
    simp

theorem name_usable (generatedAt suffix : Nat) :
    '/' ∉ (name generatedAt suffix).toList ∧ name generatedAt suffix ≠ "" ∧
      name generatedAt suffix ≠ "." ∧ name generatedAt suffix ≠ ".." := by
  obtain ⟨hslash, hhead⟩ := name_spec generatedAt suffix
  have hne (other : String) (hother : other.toList.head? ≠ some 'c') :
      name generatedAt suffix ≠ other := by
    intro heq
    rw [heq] at hhead
    exact hother hhead
  exact ⟨hslash, hne "" (by decide), hne "." (by decide), hne ".." (by decide)⟩

theorem of_freeName? {t : FileTree} {place : Place} {generatedAt : Nat} {n : String}
    (h : freeName? t place generatedAt = some n) :
    t.existsAt (place ++ [n]) = false ∧ '/' ∉ n.toList ∧ n ≠ "" ∧ n ≠ "." ∧ n ≠ ".." := by
  have hfree : t.existsAt (place ++ [n]) = false := by simpa using List.find?_some h
  obtain ⟨suffix, -, rfl⟩ := List.mem_map.mp (List.mem_of_find?_eq_some h)
  exact ⟨hfree, name_usable generatedAt suffix⟩

/-- A text that is put under a free name of a directory that was made is read from its path. -/
theorem readText_put {files made : FileTree} {dir n : String} {place : Place} {generatedAt : Nat}
    (hmade : files.createDirAll dir = (made, .ok place))
    (hname : freeName? made place generatedAt = some n)
    (hpath : FileTree.isPath (FileTree.join dir n)) (text : String) :
    (made.put (place ++ [n]) (.file text.toUTF8)).readText (FileTree.join dir n) = .ok text := by
  obtain ⟨hfree, hslash, hne, hdot, hdots⟩ := of_freeName? hname
  obtain ⟨start, front, hparts, hfollow, hplace⟩ :=
    FileTree.exists_pathParts?_of_createDirAll hmade hslash hne hpath
  have hbytes := FileTree.bytes?_put hparts hfollow hplace hfree hne hdot hdots text.toUTF8
  rw [FileTree.readText, hbytes]
  dsimp only
  rw [Utf8.decode?_toUTF8]

/-- An artifact is a new file with the text of the document, under a name that is free in its
directory. -/
theorem write_eq_ok_iff {d : GraphDocument} {files after : FileTree} {dir path : String} :
    write files dir d = (after, .ok path) ↔ ∃ made place n,
      files.createDirAll dir = (made, .ok place) ∧ freeName? made place d.generatedAt = some n ∧
      FileTree.isPath (FileTree.join dir n) ∧ path = FileTree.join dir n ∧
      after = made.put (place ++ [n]) (.file d.write.toUTF8) := by
  constructor
  · intro h
    unfold write at h
    split at h
    · cases h
    · next made place hmade =>
      split at h
      · cases h
      · next n hname =>
        dsimp only at h
        split at h
        · next hpath =>
          cases h
          exact ⟨made, place, n, hmade, hname, hpath, rfl, rfl⟩
        · cases h
  · rintro ⟨made, place, n, hmade, hname, hpath, rfl, rfl⟩
    simp [write, hmade, hname, hpath]

/-- What is read from the path of an artifact is what its text is read as. -/
theorem read_of_write {d d' : GraphDocument} {files after : FileTree} {dir path : String}
    (h : write files dir d = (after, .ok path)) :
    read after path = .ok d' ↔ GraphDocument.read d.write = .ok d' := by
  obtain ⟨made, place, n, hmade, hname, hpath, rfl, rfl⟩ := write_eq_ok_iff.mp h
  simp only [read, readText_put hmade hname hpath, bind, Except.bind]
  cases GraphDocument.read d.write with
  | ok document => simp [pure, Except.pure]
  | error fault => simp

/-- Once its directory is there and a name is free, a document is written, and it is read back
from the path that is told. -/
theorem read_write {d : GraphDocument} (hd : d.Fits) {files made : FileTree} {dir n : String}
    {place : Place} (hmade : files.createDirAll dir = (made, .ok place))
    (hname : freeName? made place d.generatedAt = some n)
    (hpath : FileTree.isPath (FileTree.join dir n)) :
    ∃ after, write files dir d = (after, .ok (FileTree.join dir n)) ∧
      read after (FileTree.join dir n) = .ok d := by
  have hwrite := write_eq_ok_iff.mpr ⟨made, place, n, hmade, hname, hpath, rfl, rfl⟩
  exact ⟨_, hwrite, (read_of_write hwrite).mpr (GraphDocument.read_write hd)⟩

end Artifact

end JavaCallGraph
