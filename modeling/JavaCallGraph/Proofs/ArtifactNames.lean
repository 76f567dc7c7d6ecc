import JavaCallGraph.Proofs.ArtifactFiles
import Std.Data.String.ToNat

/-!
# Artifacts are never written over

Directories that are made for a path are all that is new, and an artifact is put under the first
name for its time that is not taken in its directory. So what is there stays as it is, along any
sequence of writings. Names for different times or numbers are different: a writing takes up one
name and leaves the others as they are, and it lacks a name only if all names for its time are
taken.
-/

namespace JavaCallGraph

namespace FileTree

variable {t t' t'' : FileTree} {place q : Place} {parts : List String} {path : String}

/-! ### What stays -/

theorem locate?_eq_some_iff : t.locate? path = some q ↔
    ∃ start parts, pathParts? path = some (start, parts) ∧ t.follow start parts = some q ∧
      t.existsAt q := by
  unfold locate?
  rw [Option.bind_eq_bind, Option.bind_eq_some_iff]
  constructor
  · rintro ⟨⟨start, parts⟩, hparts, h⟩
    obtain ⟨found, hfollow, h⟩ := Option.bind_eq_some_iff.mp h
    split at h
    · next hexists =>
      cases h
      exact ⟨start, parts, hparts, hfollow, hexists⟩
    · cases h
  · rintro ⟨start, parts, hparts, hfollow, hexists⟩
    exact ⟨(start, parts), hparts, Option.bind_eq_some_iff.mpr ⟨q, hfollow, by simp [hexists]⟩⟩

def Keeps (t t' : FileTree) : Prop :=
  ∀ q entry, t.entryAt? q = some entry → t'.entryAt? q = some entry

theorem Keeps.refl (t : FileTree) : t.Keeps t := fun _ _ => id

theorem Keeps.trans (h : t.Keeps t') (h' : t'.Keeps t'') : t.Keeps t'' :=
  fun q entry hentry => h' q entry (h q entry hentry)

theorem Keeps.dirsStay (h : t.Keeps t') : t.DirsStay t' := by
  intro q hq
  rw [isDirAt_iff] at hq ⊢
  exact h q .dir hq

theorem Keeps.existsAt (h : t.Keeps t') (hq : t.existsAt q) : t'.existsAt q := by
  obtain ⟨entry, hentry⟩ := Option.isSome_iff_exists.mp hq
  simp [FileTree.existsAt, h q entry hentry]

theorem Keeps.locate? (h : t.Keeps t') (hq : t.locate? path = some q) :
    t'.locate? path = some q := by
  obtain ⟨start, parts, hparts, hfollow, hexists⟩ := locate?_eq_some_iff.mp hq
  exact locate?_eq_some_iff.mpr
    ⟨start, parts, hparts, follow_mono h.dirsStay hfollow, h.existsAt hexists⟩

theorem keeps_put (h : t.existsAt place = false) (entry : FileEntry) :
    t.Keeps (t.put place entry) := by
  intro q found hfound
  have hne : place ≠ q := by
    rintro rfl
    simp [FileTree.existsAt, hfound] at h
  rw [entryAt?_put_of_free h, if_neg hne, hfound]

/-! ### What directories add -/

def AddsDirs (t t' : FileTree) : Prop :=
  ∀ q, t'.entryAt? q = t.entryAt? q ∨ t.entryAt? q = none ∧ t'.entryAt? q = some .dir

theorem AddsDirs.refl (t : FileTree) : t.AddsDirs t := fun _ => .inl rfl

theorem AddsDirs.trans (h : t.AddsDirs t') (h' : t'.AddsDirs t'') : t.AddsDirs t'' := by
  intro q
  rcases h q with hq | ⟨hnone, hdir⟩
  · rw [← hq]
    exact h' q
  · refine .inr ⟨hnone, ?_⟩
    rcases h' q with hq | ⟨hnone', -⟩
    · rw [hq, hdir]
    · rw [hdir] at hnone'
      cases hnone'

theorem AddsDirs.keeps (h : t.AddsDirs t') : t.Keeps t' := by
  intro q entry hentry
  rcases h q with hq | ⟨hnone, -⟩
  · rw [hq, hentry]
  · rw [hnone] at hentry
    cases hentry

theorem AddsDirs.bytesAt? (h : t.AddsDirs t') (q : Place) : t'.bytesAt? q = t.bytesAt? q := by
  unfold FileTree.bytesAt?
  rcases h q with hq | ⟨hnone, hdir⟩
  · rw [hq]
  · rw [hnone, hdir]

theorem addsDirs_put (h : t.existsAt place = false) : t.AddsDirs (t.put place .dir) := by
  intro q
  rw [entryAt?_put_of_free h]
  split
  · next hq =>
    subst hq
    exact .inr ⟨Option.isNone_iff_eq_none.mp (by simpa [existsAt] using h), rfl⟩
  · exact .inl rfl

theorem addsDirs_makeDirs (t : FileTree) (place : Place) (parts : List String) :
    t.AddsDirs (t.makeDirs place parts).1 := by
  induction parts generalizing t place with
  | nil => exact .refl t
  | cons part rest ih =>
    rw [makeDirs]
    split
    · exact ih t place
    · split
      · exact ih t place.parent
      · dsimp only
        split
        · exact ih t (place ++ [part])
        · exact .refl t
        · next hentry =>
          split
          · exact .refl t
          · exact (addsDirs_put (by simp [existsAt, hentry])).trans (ih _ (place ++ [part]))

theorem addsDirs_createDirs (t : FileTree) (path : String) :
    t.AddsDirs (t.createDirs path).1 := by
  unfold createDirs
  split
  · exact .refl t
  · next start parts _ =>
    dsimp only
    have hfront := t.addsDirs_makeDirs start
      (parts.filter fun part => part != "" && part != ".").dropLast
    split
    · next hmade =>
      rw [hmade] at hfront
      exact hfront
    · next made mid hmade =>
      rw [hmade] at hfront
      split
      · exact hfront
      · exact hfront.trans (made.addsDirs_makeDirs mid _)

theorem addsDirs_createDirAll (t : FileTree) (path : String) :
    t.AddsDirs (t.createDirAll path).1 := by
  have hmade := t.addsDirs_createDirs path
  unfold createDirAll
  split
  · exact .refl t
  · split
    · next heq =>
      rw [heq] at hmade
      exact hmade
    · next heq =>
      rw [heq] at hmade
      exact hmade

theorem eq_of_createDirAll_error {e : Error} (h : (t.createDirAll path).2 = .error e) :
    e = .io path "not a directory" := by
  unfold createDirAll at h
  split at h
  · cases h
  · split at h
    · cases h
    · cases h
      rfl

/-! ### Directories that are there -/

theorem follow_filter (h : t.follow place parts = some q) :
    t.follow place (parts.filter fun part => part != "" && part != ".") = some q := by
  induction parts generalizing place with
  | nil => exact h
  | cons part rest ih =>
    rw [follow] at h
    split at h
    · next hplace =>
      by_cases hskip : (part == "" || part == ".") = true
      · have hdrop : (part != "" && part != ".") = false := by
          simpa [bne, ← Bool.not_or] using hskip
        rw [if_pos hskip] at h
        rw [List.filter_cons, if_neg (by simp [hdrop])]
        exact ih h
      · have hkeep : (part != "" && part != ".") = true := by
          simpa [bne, ← Bool.not_or] using hskip
        rw [if_neg hskip] at h
        rw [List.filter_cons, if_pos hkeep, follow_cons hplace, if_neg hskip]
        split at h
        · next hup =>
          rw [if_pos hup]
          exact ih h
        · next hup =>
          rw [if_neg hup]
          exact ih h
    · cases h

/-- Nothing is made on a way that leads to a directory already. -/
theorem makeDirs_of_follow (h : t.follow place parts = some q) (hq : t.isDirAt q) :
    t.makeDirs place parts = (t, some q) := by
  induction parts generalizing place with
  | nil =>
    cases h
    rfl
  | cons part rest ih =>
    rw [follow_cons (isDirAt_of_follow h hq)] at h
    rw [makeDirs]
    split at h
    · next hskip =>
      rw [if_pos hskip]
      exact ih h
    · next hskip =>
      rw [if_neg hskip]
      split at h
      · next hup =>
        rw [if_pos hup]
        exact ih h
      · next hup =>
        rw [if_neg hup]
        have hnext := isDirAt_iff.mp (isDirAt_of_follow h hq)
        simp only [hnext]
        exact ih h

theorem createDirAll_of_isDirAt (h : t.locate? path = some q) (hq : t.isDirAt q) :
    t.createDirAll path = (t, .ok q) := by
  obtain ⟨start, parts, hparts, hfollow, -⟩ := locate?_eq_some_iff.mp h
  have hne : ¬ path.isEmpty := by
    rw [String.isEmpty_iff]
    exact (pathParts?_eq_some_iff.mp hparts).1
  have hnames := follow_filter hfollow
  rw [createDirAll, if_neg hne, createDirs, hparts]
  dsimp only
  generalize (parts.filter fun part => part != "" && part != ".") = names at hnames ⊢
  rw [← dropLast_append_getLast?_toList names, follow_append, Option.bind_eq_some_iff] at hnames
  obtain ⟨mid, hfront, hlast⟩ := hnames
  have hmid := isDirAt_of_follow hlast hq
  rw [makeDirs_of_follow hfront hmid]
  dsimp only
  by_cases hdot : ((parts.filter (· != "")).getLast? == some ".") = true
  · rw [if_pos hdot, hlast, Option.filter_some, if_pos hq]
  · rw [if_neg hdot, makeDirs_of_follow hlast hq]

end FileTree

namespace Artifact

/-! ### Names -/

theorem toList_name (generatedAt suffix : Nat) : (name generatedAt suffix).toList =
    "callgraph-".toList ++ (Nat.toDigits 10 generatedAt ++
      ((if suffix = 0 then [] else '-' :: Nat.toDigits 10 suffix) ++ ".json".toList)) := by
  unfold name
  split
  · change ("callgraph-" ++ toString generatedAt ++ ".json").toList = _
    simp
  · change ("callgraph-" ++ toString generatedAt ++ "-" ++ toString suffix ++ ".json").toList = _
    simp

/-- The digits at the front of a text that goes on with no digit. -/
theorem takeWhile_toDigits_append (n : Nat) {c : Char} (hc : c.isDigit = false)
    (rest : List Char) :
    (Nat.toDigits 10 n ++ c :: rest).takeWhile Char.isDigit = Nat.toDigits 10 n := by
  rw [List.takeWhile_append_of_pos fun d hd =>
    Nat.isDigit_of_mem_toDigits (by decide) (by decide) hd,
    List.takeWhile_cons_of_neg (by simp [hc]), List.append_nil]

theorem name_inj {time time' suffix suffix' : Nat} :
    name time suffix = name time' suffix' ↔ time = time' ∧ suffix = suffix' := by
  constructor
  · intro h
    have hchars := congrArg String.toList h
    rw [toList_name, toList_name] at hchars
    have hnumbers := List.append_cancel_left hchars
    -- After the time comes a hyphen or a dot.
    have hcut (n k : Nat) : (Nat.toDigits 10 n ++ ((if k = 0 then [] else
        '-' :: Nat.toDigits 10 k) ++ ".json".toList)).takeWhile Char.isDigit =
          Nat.toDigits 10 n := by
      split
      · exact takeWhile_toDigits_append n (c := '.') rfl _
      · exact takeWhile_toDigits_append n (c := '-') rfl _
    have htime : time = time' := by
      apply Nat.repr_injective
      rw [Nat.repr_eq_ofList_toDigits, ← hcut time suffix, hnumbers, hcut,
        Nat.repr_eq_ofList_toDigits]
    subst htime
    have hrest := List.append_cancel_right (List.append_cancel_left hnumbers)
    refine ⟨rfl, ?_⟩
    split at hrest
    · next hzero =>
      split at hrest
      · next hzero' => rw [hzero, hzero']
      · cases hrest
    · split at hrest
      · cases hrest
      · exact Nat.repr_injective (congrArg String.ofList (List.cons.inj hrest).2)
  · rintro ⟨rfl, rfl⟩
    rfl

structure IsLeastFree (t : FileTree) (dir : Place) (generatedAt suffix : Nat) : Prop where
  le_max : suffix ≤ maxSuffix
  free : t.existsAt (dir ++ [name generatedAt suffix]) = false
  below_taken : ∀ k < suffix, t.existsAt (dir ++ [name generatedAt k])

section FreeNames

variable {t : FileTree} {dir : Place} {generatedAt : Nat}

theorem IsLeastFree.unique {j k : Nat} (hj : IsLeastFree t dir generatedAt j)
    (hk : IsLeastFree t dir generatedAt k) : j = k := by
  have hle {a b : Nat} (ha : IsLeastFree t dir generatedAt a)
      (hb : IsLeastFree t dir generatedAt b) : a ≤ b := by
    by_contra hlt
    have htaken := ha.below_taken b (Nat.lt_of_not_le hlt)
    rw [hb.free] at htaken
    cases htaken
  exact Nat.le_antisymm (hle hj hk) (hle hk hj)

theorem freeName?_eq_some_iff {n : String} : freeName? t dir generatedAt = some n ↔
    ∃ k, IsLeastFree t dir generatedAt k ∧ n = name generatedAt k := by
  rw [freeName?, List.find?_map, Option.map_eq_some_iff]
  constructor
  · rintro ⟨k, hk, rfl⟩
    obtain ⟨hfree, hmem, hbelow⟩ := List.find?_range_eq_some.mp hk
    refine ⟨k, ⟨Nat.le_of_lt_succ (List.mem_range.mp hmem), by simpa using hfree, ?_⟩, rfl⟩
    exact fun j hj => by simpa using hbelow j hj
  · rintro ⟨k, hk, rfl⟩
    refine ⟨k, List.find?_range_eq_some.mpr ⟨by simpa using hk.free, ?_, ?_⟩, rfl⟩
    · exact List.mem_range.mpr (Nat.lt_succ_of_le hk.le_max)
    · exact fun j hj => by simpa using hk.below_taken j hj

theorem freeName?_eq_none_iff : freeName? t dir generatedAt = none ↔
    ∀ k ≤ maxSuffix, t.existsAt (dir ++ [name generatedAt k]) := by
  rw [freeName?, List.find?_map, Option.map_eq_none_iff, List.find?_eq_none]
  constructor
  · intro h k hk
    simpa using h k (List.mem_range.mpr (Nat.lt_succ_of_le hk))
  · intro h k hk
    simpa using h k (Nat.le_of_lt_succ (List.mem_range.mp hk))

end FreeNames

/-! ### One writing -/

def full (dir : String) (generatedAt : Nat) : Error :=
  .io dir s!"too many artifacts for timestamp {generatedAt}"

theorem io_ne_full (dir path : String) (generatedAt : Nat) {reason : String}
    (h : reason.toList.take 2 ≠ ['t', 'o']) : Error.io path reason ≠ full dir generatedAt := by
  intro heq
  obtain ⟨-, rfl⟩ := Error.io.inj heq
  apply h
  change ("too many artifacts for timestamp " ++ toString generatedAt).toList.take 2 = ['t', 'o']
  simp

variable {files made : FileTree} {dir : String} {place : Place} {d : GraphDocument}

/-- A writing fails for lack of a name exactly if there are none left in its directory. -/
theorem write_eq_full_iff : (write files dir d).2 = .error (full dir d.generatedAt) ↔
    ∃ place, (files.createDirAll dir).2 = .ok place ∧
      ∀ k ≤ maxSuffix, (files.createDirAll dir).1.existsAt (place ++ [name d.generatedAt k]) := by
  unfold write
  split
  · next made e hmade =>
    have he := FileTree.eq_of_createDirAll_error (congrArg Prod.snd hmade)
    rw [hmade]
    constructor
    · intro h
      rw [he] at h
      exact absurd (Except.error.inj h) (io_ne_full dir dir d.generatedAt (by decide))
    · rintro ⟨place, hplace, -⟩
      cases hplace
  · next made place hmade =>
    rw [hmade]
    simp only [Except.ok.injEq, exists_eq_left', ← freeName?_eq_none_iff]
    split
    · next hnone => simp [hnone, full]
    · next n hname =>
      rw [hname]
      split
      · simp
      · simpa using io_ne_full dir _ d.generatedAt (by decide)

/-- A writing that fails has made directories at most. -/
theorem write_fst_of_error {e : Error} (h : (write files dir d).2 = .error e) :
    (write files dir d).1 = (files.createDirAll dir).1 := by
  unfold write at h ⊢
  split
  · next hmade => rw [hmade]
  · next hmade =>
    simp only [hmade] at h ⊢
    split at h
    · rfl
    · split at h
      · cases h
      · next hlong => rw [if_neg hlong]

theorem of_write_ok {path : String} (h : (write files dir d).2 = .ok path) :
    ∃ place k, (files.createDirAll dir).2 = .ok place ∧
      IsLeastFree (files.createDirAll dir).1 place d.generatedAt k ∧
      path = FileTree.join dir (name d.generatedAt k) ∧ FileTree.isPath path ∧
      (write files dir d).1 = (files.createDirAll dir).1.put (place ++ [name d.generatedAt k])
        (.file d.write.toUTF8) := by
  have hwrite : write files dir d = ((write files dir d).1, .ok path) := Prod.ext rfl h
  obtain ⟨made, place, n, hmade, hname, hpath, rfl, hafter⟩ := write_eq_ok_iff.mp hwrite
  obtain ⟨k, hk, rfl⟩ := freeName?_eq_some_iff.mp hname
  rw [hmade]
  exact ⟨place, k, rfl, hk, rfl, hpath, hafter⟩

theorem write_ok_iff {path : String} : (write files dir d).2 = .ok path ↔
    ∃ place k, (files.createDirAll dir).2 = .ok place ∧
      IsLeastFree (files.createDirAll dir).1 place d.generatedAt k ∧
      path = FileTree.join dir (name d.generatedAt k) ∧ FileTree.isPath path := by
  constructor
  · intro h
    obtain ⟨place, k, hplace, hk, hjoin, hpath, -⟩ := of_write_ok h
    exact ⟨place, k, hplace, hk, hjoin, hpath⟩
  · rintro ⟨place, k, hplace, hk, rfl, hpath⟩
    have hmade : files.createDirAll dir = ((files.createDirAll dir).1, .ok place) :=
      Prod.ext rfl hplace
    have hname := freeName?_eq_some_iff.mpr ⟨k, hk, rfl⟩
    exact congrArg Prod.snd (write_eq_ok_iff.mpr ⟨_, place, _, hmade, hname, hpath, rfl, rfl⟩)

theorem keeps_write (files : FileTree) (dir : String) (d : GraphDocument) :
    files.Keeps (write files dir d).1 := by
  have hdirs := (files.addsDirs_createDirAll dir).keeps
  cases h : (write files dir d).2 with
  | error e =>
    rw [write_fst_of_error h]
    exact hdirs
  | ok path =>
    obtain ⟨place, k, -, hk, -, -, hafter⟩ := of_write_ok h
    rw [hafter]
    exact hdirs.trans (FileTree.keeps_put hk.free _)

structure IsNewFile (before after : FileTree) (path : String) (bytes : ByteArray) : Prop where
  absent : before.exists? path = false
  content : after.bytes? path = some bytes
  others : ∀ q, after.locate? path ≠ some q → after.bytesAt? q = before.bytesAt? q

/-- What is told as the path of an artifact was no path to anything before, and leads to the
document now. -/
theorem isNewFile_write {path : String} (h : (write files dir d).2 = .ok path) :
    IsNewFile files (write files dir d).1 path d.write.toUTF8 := by
  obtain ⟨place, k, hplace, hk, rfl, hpath, hafter⟩ := of_write_ok h
  have hdirs := files.addsDirs_createDirAll dir
  have hmade : files.createDirAll dir = ((files.createDirAll dir).1, .ok place) :=
    Prod.ext rfl hplace
  generalize (files.createDirAll dir).1 = made at hk hdirs hmade hafter
  have hfree := hk.free
  obtain ⟨hslash, hne, hdot, hdots⟩ := name_usable d.generatedAt k
  generalize name d.generatedAt k = n at hfree hslash hne hdot hdots hpath hafter ⊢
  obtain ⟨start, front, hparts, hfollow, hdir⟩ :=
    FileTree.exists_pathParts?_of_createDirAll hmade hslash hne hpath
  have hlocate := FileTree.locate?_put hparts hfollow hdir hfree hne hdot hdots
    (.file d.write.toUTF8)
  rw [hafter]
  refine ⟨?_, ?_, fun q hq => ?_⟩
  · -- A path that led somewhere before would still lead there, to the name that was free.
    by_contra hthere
    obtain ⟨q, hq⟩ := Option.isSome_iff_exists.mp (eq_true_of_ne_false hthere)
    have hlocated := hdirs.keeps.locate? hq
    have hsame := (FileTree.keeps_put hfree (.file d.write.toUTF8)).locate? hlocated
    rw [hlocate] at hsame
    obtain ⟨-, -, -, -, hexists⟩ := FileTree.locate?_eq_some_iff.mp hlocated
    rw [← Option.some.inj hsame, hfree] at hexists
    cases hexists
  · exact FileTree.bytes?_put hparts hfollow hdir hfree hne hdot hdots _
  · have hother : place ++ [n] ≠ q := by
      rintro rfl
      exact hq hlocate
    rw [← hdirs.bytesAt? q]
    unfold FileTree.bytesAt?
    rw [FileTree.entryAt?_put_of_free hfree, if_neg hother]

/-- A writing takes up its own name and no other name for any time. -/
theorem existsAt_write_iff {path : String} {k : Nat} (h : (write files dir d).2 = .ok path)
    (hplace : (files.createDirAll dir).2 = .ok place)
    (hk : IsLeastFree (files.createDirAll dir).1 place d.generatedAt k) (time suffix : Nat) :
    (write files dir d).1.existsAt (place ++ [name time suffix]) ↔
      (files.createDirAll dir).1.existsAt (place ++ [name time suffix]) ∨
        time = d.generatedAt ∧ suffix = k := by
  obtain ⟨place', k', hplace', hk', -, -, hafter⟩ := of_write_ok h
  obtain rfl : place' = place := Except.ok.inj (hplace'.symm.trans hplace)
  obtain rfl : k' = k := hk'.unique hk
  rw [hafter]
  unfold FileTree.existsAt
  rw [FileTree.entryAt?_put_of_free hk.free]
  split
  · next heq =>
    obtain ⟨rfl, rfl⟩ := name_inj.mp (List.singleton_inj.mp (List.append_cancel_left heq))
    simp
  · next hne =>
    refine ⟨.inl, fun hcases => hcases.resolve_right ?_⟩
    rintro ⟨rfl, rfl⟩
    exact hne rfl

/-! ### Writings in sequence -/

def writeAll (files : FileTree) (requests : List (String × GraphDocument)) : FileTree :=
  requests.foldl (fun files request => (write files request.1 request.2).1) files

theorem keeps_writeAll (files : FileTree) (requests : List (String × GraphDocument)) :
    files.Keeps (writeAll files requests) := by
  induction requests generalizing files with
  | nil => exact .refl files
  | cons request requests ih => exact (keeps_write files request.1 request.2).trans (ih _)

/-- After any writings, what was there at first is there unchanged, and so it is after one more.
That one makes its directory unless it is there, and then takes the smallest number whose name is
free; it fails for lack of a name exactly if there is no such number. What succeeds adds one new
file, and no failure adds or changes any. -/
theorem never_overwritten (files : FileTree) (earlier : List (String × GraphDocument))
    (dir : String) (d : GraphDocument) :
    let before := writeAll files earlier
    let made := before.createDirAll dir
    let after := write before dir d
    files.Keeps before ∧ before.Keeps after.1 ∧
    (∀ place, before.locate? dir = some place → before.isDirAt place →
      made = (before, .ok place)) ∧
    (∀ path, after.2 = .ok path ↔ ∃ place k, made.2 = .ok place ∧
      IsLeastFree made.1 place d.generatedAt k ∧
      path = FileTree.join dir (name d.generatedAt k) ∧ FileTree.isPath path) ∧
    (∀ path, after.2 = .ok path → IsNewFile before after.1 path d.write.toUTF8 ∧
      ∀ place k, made.2 = .ok place → IsLeastFree made.1 place d.generatedAt k →
        ∀ time suffix, after.1.existsAt (place ++ [name time suffix]) ↔
          made.1.existsAt (place ++ [name time suffix]) ∨ time = d.generatedAt ∧ suffix = k) ∧
    (after.2 = .error (full dir d.generatedAt) ↔ ∃ place, made.2 = .ok place ∧
      ∀ k ≤ maxSuffix, made.1.existsAt (place ++ [name d.generatedAt k])) ∧
    ∀ e, after.2 = .error e → ∀ q, after.1.bytesAt? q = before.bytesAt? q := by
  intro before made after
  refine ⟨keeps_writeAll files earlier, keeps_write before dir d,
    fun place => FileTree.createDirAll_of_isDirAt, fun path => write_ok_iff,
    fun path hpath => ⟨isNewFile_write hpath, fun place k => existsAt_write_iff hpath⟩,
    write_eq_full_iff, fun e he q => ?_⟩
  rw [show after.1 = made.1 from write_fst_of_error he]
  exact (before.addsDirs_createDirAll dir).bytesAt? q

section SameSecond

def store : FileTree := FileTree.put {} ["out"] .dir

theorem locate?_store : store.locate? "out" = some ["out"] :=
  FileTree.locate?_eq_some_iff.mpr ⟨[], ["out"], FileTree.pathParts?_eq_some_iff.mpr ⟨by decide,
    FileTree.isPath_iff.mpr (by decide +kernel), by decide +kernel, by decide +kernel⟩,
    by decide +kernel, by decide +kernel⟩

/-- The second of two documents of one second gets a number, and the first one stays. -/
theorem never_overwritten_same_second :
    let d := GraphDocument.ofGraph {} "src" {} 42
    let once := (write store "out" d).1
    let twice := write once "out" d
    once.entryAt? ["out", "callgraph-42.json"] = some (.file d.write.toUTF8) ∧
      twice.2 = .ok "out/callgraph-42-1.json" ∧
      IsNewFile once twice.1 "out/callgraph-42-1.json" d.write.toUTF8 ∧
      twice.1.entryAt? ["out", "callgraph-42.json"] = some (.file d.write.toUTF8) := by
  intro d once twice
  have hfirst : IsLeastFree store ["out"] 42 0 :=
    ⟨by decide, by decide +kernel, fun k hk => absurd hk (Nat.not_lt_zero k)⟩
  have hmade := FileTree.createDirAll_of_isDirAt locate?_store (by decide +kernel)
  have hname : "callgraph-42.json" = name 42 0 := by decide +kernel
  have hfree : store.existsAt ["out", "callgraph-42.json"] = false := hname ▸ hfirst.free
  have hwrite : write store "out" d = (store.put ["out", "callgraph-42.json"]
      (.file d.write.toUTF8), .ok "out/callgraph-42.json") :=
    write_eq_ok_iff.mpr ⟨store, ["out"], "callgraph-42.json", hmade,
      freeName?_eq_some_iff.mpr ⟨0, hfirst, hname⟩, FileTree.isPath_iff.mpr (by decide +kernel),
      by decide +kernel, rfl⟩
  have honce : once = store.put ["out", "callgraph-42.json"] (.file d.write.toUTF8) :=
    congrArg Prod.fst hwrite
  have hentry : once.entryAt? ["out", "callgraph-42.json"] = some (.file d.write.toUTF8) := by
    rw [honce, FileTree.entryAt?_put_of_free hfree, if_pos rfl]
  obtain ⟨hkept, hkeeps, hthere, hok, hnew, -⟩ := never_overwritten store [("out", d)] "out" d
  have hdir := hthere ["out"] (hkept.locate? locate?_store) (hkept.dirsStay _ (by decide +kernel))
  have hsecond : IsLeastFree once ["out"] 42 1 := by
    refine ⟨by decide, ?_, fun k hk => ?_⟩
    · rw [honce, FileTree.existsAt, FileTree.entryAt?_put_of_free hfree]
      decide +kernel
    · obtain rfl : k = 0 := by omega
      rw [← hname]
      exact Option.isSome_iff_exists.mpr ⟨_, hentry⟩
  have htwice : twice.2 = .ok "out/callgraph-42-1.json" :=
    (hok _).mpr ⟨["out"], 1, congrArg Prod.snd hdir, by rw [hdir]; exact hsecond,
      by decide +kernel, FileTree.isPath_iff.mpr (by decide +kernel)⟩
  exact ⟨hentry, htwice, (hnew _ htwice).1, hkeeps _ _ hentry⟩

end SameSecond

end Artifact

end JavaCallGraph
