import FleetOS.FileAtomicity
import FleetOS.Runs

/-!
# The directory as a set of paths

Looking up, making and deleting a file should treat the directory as a set of paths
(`KeepsSet`). Two calls do not. `fs_create` looks at the number of files before it looks for the
path, so on a full table it fails for a file that exists. And it stores the first 63 characters of
a path, while every call looks for the whole of it : a longer path can be created again and again,
is never found, and leaves an entry that has the path of another file. In a run from `fs_init` the
directory is a set as long as no call is of these two kinds, and no longer
(`keepsSet_fsRun_iff`).
-/

namespace FleetOS

/-- No two used entries have the same stored path. -/
def DistinctPaths (fs : FileSystem) : Prop :=
  ∀ i < maxFiles, ∀ j < maxFiles, (fs.files i).used = true → (fs.files j).used = true →
    (fs.files i).path = (fs.files j).path → i = j

/-- Afterwards the stored paths are distinct; making a file succeeds if and only if the file is
there then, and does nothing if it was there before; a deleted file is not there. -/
def KeepsSet (fs : FileSystem) (call : FsCall) : Prop :=
  DistinctPaths (fsCall fs call) ∧
    match call with
    | .create path =>
      ((fsCreate fs path).2 = 0 ↔ (findFile (fsCreate fs path).1 path).isSome = true) ∧
        ((findFile fs path).isSome = true → fsCreate fs path = (fs, 0))
    | .delete path => findFile (fsDelete fs path).1 path = none
    | _ => True

/-- A path that is made fits its entry, or is not in a full table; a write does not make a file
whose stored path is there already. -/
def Storable (fs : FileSystem) : FsCall → Prop
  | .create path =>
    if fs.fileCount < maxFiles then path.length ≤ 63 else findFile fs path = none
  | .write path _ size =>
    0 < size → findFile fs path = none → fs.fileCount < maxFiles →
      findFile fs (path.take 63) = none
  | _ => True

/-- The stored paths are distinct and of at most 63 characters, and `file_count` counts them. -/
structure Directory (fs : FileSystem) : Prop where
  distinct : DistinctPaths fs
  stored : ∀ i < maxFiles, (fs.files i).used = true → (fs.files i).path.length ≤ 63
  count : fs.fileCount = usedCount fs

/-! ## Entries -/

/-- The same entries, up to their chains and sizes. -/
structure SameNames (fs fs' : FileSystem) : Prop where
  used : ∀ i, (fs'.files i).used = (fs.files i).used
  path : ∀ i, (fs'.files i).path = (fs.files i).path
  count : fs'.fileCount = fs.fileCount

section entries

variable {fs fs' : FileSystem} {path : CString} {idx : ℕ}

theorem SameNames.of_files (h : fs'.files = fs.files) (hc : fs'.fileCount = fs.fileCount) :
    SameNames fs fs' :=
  ⟨fun i => by rw [h], fun i => by rw [h], hc⟩

theorem SameNames.setFile (h : SameNames fs fs') (idx : ℕ) {f : FileEntry → FileEntry}
    (hu : ∀ e, (f e).used = e.used) (hp : ∀ e, (f e).path = e.path) :
    SameNames fs (setFile fs' idx f) := by
  have hentry (i : ℕ) : ((FleetOS.setFile fs' idx f).files i).used = (fs'.files i).used ∧
      ((FleetOS.setFile fs' idx f).files i).path = (fs'.files i).path := by
    by_cases hi : i = idx
    · rw [hi, setFile_self]
      exact ⟨hu _, hp _⟩
    · rw [setFile_of_ne fs' hi]
      exact ⟨rfl, rfl⟩
  exact ⟨fun i => (hentry i).1.trans (h.used i), fun i => (hentry i).2.trans (h.path i), h.count⟩

theorem SameNames.setFat (h : SameNames fs fs') (blk v : ℤ) : SameNames fs (setFat fs' blk v) :=
  ⟨h.used, h.path, h.count⟩

theorem SameNames.symm (h : SameNames fs fs') : SameNames fs' fs :=
  ⟨fun i => (h.used i).symm, fun i => (h.path i).symm, h.count.symm⟩

theorem SameNames.distinct (h : SameNames fs fs') (hd : DistinctPaths fs) : DistinctPaths fs' := by
  intro i hi j hj
  rw [h.used, h.used, h.path, h.path]
  exact hd i hi j hj

theorem SameNames.directory (h : SameNames fs fs') (hd : Directory fs) : Directory fs' := by
  refine ⟨h.distinct hd.distinct, fun i hi => ?_, ?_⟩
  · rw [h.used, h.path]
    exact hd.stored i hi
  · have hused : usedCount fs' = usedCount fs := by
      unfold usedCount
      simp only [h.used]
    rw [hused, h.count]
    exact hd.count

/-- A table that is not full has an entry for the file. -/
theorem Directory.fsCreate_eq (h : Directory fs) (hroom : fs.fileCount < maxFiles)
    (hnone : findFile fs path = none) : ∃ idx < maxFiles, (fs.files idx).used = false ∧
      fsCreate fs path = (withFile fs idx path, 0) := by
  cases hu : findUnused fs with
  | none =>
    have hall : usedCount fs = (List.range maxFiles).length := by
      refine List.countP_eq_length.mpr fun i hi => ?_
      simpa using List.find?_eq_none.mp hu i hi
    rw [h.count, hall, List.length_range] at hroom
    exact absurd hroom (lt_irrefl _)
  | some idx =>
    have hmem := List.mem_of_find?_eq_some hu
    refine ⟨idx, List.mem_range.mp hmem, by simpa using List.find?_some hu, ?_⟩
    rw [fsCreate, if_neg (not_le.mpr hroom), hnone, hu]
    rfl

/-- A new entry has a path of its own exactly when no entry has it before. -/
theorem distinct_withFile_iff (h : DistinctPaths fs) (hidx : idx < maxFiles)
    (hu : (fs.files idx).used = false) :
    DistinctPaths (withFile fs idx path) ↔ findFile fs (path.take 63) = none := by
  have hself := withFile_self fs idx path
  have hne {i : ℕ} (hi : (fs.files i).used = true) : i ≠ idx := by
    rintro rfl
    rw [hu] at hi
    cases hi
  rw [findFile_eq_none]
  constructor
  · rintro hd i hi ⟨hiu, hip⟩
    refine hne hiu (hd i hi idx hidx ?_ ?_ ?_)
    · rw [withFile_of_ne fs path (hne hiu)]
      exact hiu
    · rw [hself]
    · rw [withFile_of_ne fs path (hne hiu), hself]
      exact hip
  · intro hnone i hi j hj hiu hju hp
    by_cases hii : i = idx
    · by_cases hji : j = idx
      · rw [hii, hji]
      · rw [withFile_of_ne fs path hji] at hju hp
        rw [hii, hself] at hp
        exact absurd ⟨hju, hp.symm⟩ (hnone j hj)
    · rw [withFile_of_ne fs path hii] at hiu hp
      by_cases hji : j = idx
      · rw [hji, hself] at hp
        exact absurd ⟨hiu, hp⟩ (hnone i hi)
      · rw [withFile_of_ne fs path hji] at hju hp
        exact h i hi j hj hiu hju hp

theorem Directory.withFile (h : Directory fs) (hidx : idx < maxFiles)
    (hu : (fs.files idx).used = false) (hnone : findFile fs (path.take 63) = none) :
    Directory (withFile fs idx path) := by
  have hself := withFile_self fs idx path
  refine ⟨(distinct_withFile_iff h.distinct hidx hu).mpr hnone, fun i hi hiu => ?_, ?_⟩
  · by_cases hii : i = idx
    · rw [hii, hself, List.length_take]
      exact Nat.min_le_left _ _
    · rw [withFile_of_ne fs path hii] at hiu ⊢
      exact h.stored i hi hiu
  · have hcount := usedCount_change hidx fun i hi => withFile_of_ne fs path hi
    rw [hu, hself, if_neg (by decide), if_pos rfl] at hcount
    have hfc : (FleetOS.withFile fs idx path).fileCount = fs.fileCount + 1 := rfl
    have := h.count
    omega

theorem Directory.length_le (h : Directory fs) (hf : findFile fs path = some idx) :
    path.length ≤ 63 := by
  obtain ⟨hidx, hu, hp⟩ := findFile_eq_some hf
  exact hp ▸ h.stored idx hidx hu

end entries

/-! ## Making -/

section calls

variable {fs : FileSystem}

theorem Directory.create_iff (h : Directory fs) (path : CString) :
    KeepsSet fs (.create path) ↔ Storable fs (.create path) := by
  simp only [KeepsSet, Storable, fsCall]
  by_cases hroom : fs.fileCount < maxFiles
  · rw [if_pos hroom]
    cases hf : findFile fs path with
    | some idx =>
      have he : fsCreate fs path = (fs, 0) := by
        rw [fsCreate, if_neg (not_le.mpr hroom), hf]
        rfl
      rw [he, hf]
      exact iff_of_true ⟨h.distinct, by simp, fun _ => rfl⟩ (h.length_le hf)
    | none =>
      obtain ⟨idx, hidx, hu, he⟩ := h.fsCreate_eq hroom hf
      rw [he, distinct_withFile_iff h.distinct hidx hu, findFile_withFile hidx hf]
      by_cases hlen : path.length ≤ 63
      · rw [List.take_of_length_le hlen, if_pos hlen]
        exact iff_of_true ⟨hf, by simp, fun hs => by cases hs⟩ hlen
      · rw [if_neg hlen]
        exact iff_of_false (fun hk => by simp at hk) hlen
  · have he : fsCreate fs path = (fs, -1) := if_pos (not_lt.mp hroom)
    rw [if_neg hroom, he]
    cases hf : findFile fs path with
    | some idx => exact iff_of_false (fun hk => by simp at hk) (by simp)
    | none => exact iff_of_true ⟨h.distinct, by simp, fun hs => by cases hs⟩ rfl

theorem Directory.create (h : Directory fs) {path : CString}
    (hlen : fs.fileCount < maxFiles → path.length ≤ 63) : Directory (fsCreate fs path).1 := by
  rcases fsCreate_cases fs path with he | ⟨hroom, hnone, idx, hidx, hu, -, he⟩
  · rw [he]
    exact h
  · rw [he]
    exact h.withFile hidx hu (by rw [List.take_of_length_le (hlen hroom)]; exact hnone)

/-! ## Writing -/

theorem sameNames_writeFile (fs : FileSystem) (idx : ℕ) (src : List UInt8) (size total first : ℤ) :
    SameNames fs (writeFile fs idx src size total first).1 := by
  have hblocks : ∀ (rest : ℕ) (fs : FileSystem) (prev cur : ℤ) (written : ℕ),
      (writeBlocks src size.toNat rest fs prev cur written).1.files = fs.files := by
    intro rest
    induction rest with
    | zero => exact fun _ _ _ _ => rfl
    | succ rest ih =>
      intro fs prev cur written
      by_cases hlt : written < size.toNat
      · rw [writeBlocks_succ src size.toNat rest fs prev cur hlt]
        have hfill := (fillBlock_rest fs src prev cur written
          (min blockSize (size.toNat - written))).2.1
        dsimp only
        split_ifs
        · exact hfill
        · exact (ih _ _ _ _).trans hfill
      · rw [writeBlocks, if_pos (not_lt.mp hlt)]
  have hn : SameNames fs (writeBlocks src size.toNat total.toNat fs (-1) first 0).1 :=
    .of_files (hblocks _ _ _ _ _) (fileCount_writeBlocks _ _ _ _ _ _ _)
  unfold writeFile
  dsimp only
  split_ifs
  · refine SameNames.setFile (SameNames.setFile hn idx ?_ ?_) idx ?_ ?_ <;> exact fun _ => rfl
  · refine SameNames.setFile (SameNames.setFat hn _ _) idx ?_ ?_ <;> exact fun _ => rfl

/-- A write changes no name once its file is open. -/
theorem sameNames_fsWrite (fs : FileSystem) (path : CString) (src : List UInt8) {size : ℤ}
    (hpos : 0 < size) : SameNames (openForWrite fs path).1 (fsWrite fs path src size).1 := by
  have hrefl : ∀ fs : FileSystem, SameNames fs fs := fun _ => .of_files rfl rfl
  rw [fsWrite, if_neg (not_le.mpr hpos)]
  dsimp only
  cases (openForWrite fs path).2 with
  | none => exact hrefl _
  | some idx =>
    dsimp only
    split_ifs
    · exact hrefl _
    · exact hrefl _
    · exact sameNames_writeFile _ _ _ _ _ _

theorem Directory.write_iff (h : Directory fs) (path : CString) (src : List UInt8) (size : ℤ) :
    (KeepsSet fs (.write path src size) ↔ Storable fs (.write path src size)) ∧
      (Storable fs (.write path src size) → Directory (fsWrite fs path src size).1) := by
  simp only [KeepsSet, Storable, fsCall, and_true]
  by_cases hpos : 0 < size
  · have hn := sameNames_fsWrite fs path src hpos
    have hiff : DistinctPaths (fsWrite fs path src size).1 ↔
        DistinctPaths (openForWrite fs path).1 := ⟨hn.symm.distinct, hn.distinct⟩
    rw [hiff]
    rcases openForWrite_cases fs path with
      ⟨idx, hf, he⟩ | ⟨hf, he, -⟩ | ⟨hf, hroom, idx, hidx, hu, -, he⟩
    · rw [he] at hn ⊢
      refine ⟨iff_of_true h.distinct fun _ hnone => ?_, fun _ => hn.directory h⟩
      rw [hf] at hnone
      cases hnone
    · rw [he] at hn ⊢
      -- with room in the table the file would have been made
      have hfull : ¬fs.fileCount < maxFiles := by
        intro hroom
        obtain ⟨idx, -, -, hc⟩ := h.fsCreate_eq hroom hf
        have hmade : (openForWrite fs path).1 = FleetOS.withFile fs idx path := by
          simp only [openForWrite, hf, hc]
          rfl
        have hcount := congrArg FileSystem.fileCount (hmade.symm.trans he)
        simp [FleetOS.withFile] at hcount
      exact ⟨iff_of_true h.distinct fun _ _ hroom => absurd hroom hfull, fun _ => hn.directory h⟩
    · rw [he] at hn ⊢
      rw [distinct_withFile_iff h.distinct hidx hu]
      exact ⟨⟨fun hnone _ _ _ => hnone, fun hs => hs hpos hf hroom⟩,
        fun hs => hn.directory (h.withFile hidx hu (hs hpos hf hroom))⟩
  · have he : fsWrite fs path src size = (fs, -1) := if_pos (not_lt.mp hpos)
    rw [he]
    exact ⟨iff_of_true h.distinct fun hp => absurd hp hpos, fun _ => h⟩

/-! ## Deleting -/

theorem files_freeBlocks : ∀ (fuel : ℕ) (blk : ℤ) (fs : FileSystem),
    (freeBlocks fuel blk fs).files = fs.files
  | 0, _, _ => rfl
  | fuel + 1, blk, fs => by
    rw [freeBlocks]
    split_ifs
    · rfl
    · exact files_freeBlocks fuel _ _

theorem Directory.delete (h : Directory fs) (path : CString) :
    KeepsSet fs (.delete path) ∧ Directory (fsDelete fs path).1 := by
  simp only [KeepsSet, fsCall]
  cases hf : findFile fs path with
  | none =>
    have he : fsDelete fs path = (fs, -1) := by
      rw [fsDelete, hf]
    rw [he]
    exact ⟨⟨h.distinct, hf⟩, h⟩
  | some idx =>
    obtain ⟨hidx, hu, hpath⟩ := findFile_eq_some hf
    have hfiles : (fsDelete fs path).1.files =
        Function.update fs.files idx { fs.files idx with used := false, path := [] } := by
      simp only [fsDelete, hf, setFile, files_freeBlocks]
    have hcount : (fsDelete fs path).1.fileCount = fs.fileCount - 1 := by
      simp only [fsDelete, hf]
      exact congrArg (· - 1) (fileCount_freeBlocks blockCount _ fs)
    generalize (fsDelete fs path).1 = fs' at hfiles hcount ⊢
    have hself : (fs'.files idx).used = false := by
      rw [hfiles, Function.update_self]
    have hother : ∀ i, i ≠ idx → fs'.files i = fs.files i := fun i hi => by
      rw [hfiles, Function.update_of_ne hi]
    have hne : ∀ i, (fs'.files i).used = true → i ≠ idx := by
      rintro i hi rfl
      rw [hself] at hi
      cases hi
    have hdir : Directory fs' := by
      refine ⟨fun i hi j hj hiu hju => ?_, fun i hi hiu => ?_, ?_⟩
      · have hi' := hother i (hne i hiu)
        have hj' := hother j (hne j hju)
        rw [hi'] at hiu ⊢
        rw [hj'] at hju ⊢
        exact h.distinct i hi j hj hiu hju
      · have hi' := hother i (hne i hiu)
        rw [hi'] at hiu ⊢
        exact h.stored i hi hiu
      · have hchange := usedCount_change hidx hother
        rw [hu, hself, if_pos rfl, if_neg (by decide)] at hchange
        have := h.count
        omega
    refine ⟨⟨hdir.distinct, findFile_eq_none.mpr ?_⟩, hdir⟩
    rintro i hi ⟨hiu, hip⟩
    rw [hother i (hne i hiu)] at hip
    have hiu' : (fs.files i).used = true := hother i (hne i hiu) ▸ hiu
    exact hne i hiu (h.distinct i hi idx hidx hiu' hu (hip.trans hpath.symm))

/-! ## Runs -/

theorem Directory.call_iff (h : Directory fs) (call : FsCall) :
    (KeepsSet fs call ↔ Storable fs call) ∧ (Storable fs call → Directory (fsCall fs call)) := by
  cases call with
  | create path =>
    refine ⟨h.create_iff path, fun hs => h.create fun hroom => ?_⟩
    rwa [Storable, if_pos hroom] at hs
  | write path src size => exact h.write_iff path src size
  | read path size => exact ⟨iff_of_true ⟨h.distinct, trivial⟩ trivial, fun _ => h⟩
  | delete path => exact ⟨iff_of_true (h.delete path).1 trivial, fun _ => (h.delete path).2⟩

end calls

theorem directory_fsInit : Directory fsInit := by
  have hempty : Directory
      { data := fun _ _ => 0, fat := fun _ => memsetInt (-2), files := fun _ => ⟨[], 0, 0, false⟩,
        fileCount := 0 } :=
    ⟨fun i _ j _ hu => absurd hu Bool.false_ne_true, fun i _ hu => absurd hu Bool.false_ne_true,
      by decide⟩
  exact ((hempty.create fun _ => by decide).create fun _ => by decide).create fun _ => by decide

/-- The directory is a set after every call of a run exactly when every call can be stored. -/
theorem keepsSet_fsRun_iff (calls : List FsCall) :
    DistinctPaths fsInit ∧
      ((∀ n (hn : n < calls.length), KeepsSet (fsRun (calls.take n)) calls[n]) ↔
        ∀ n (hn : n < calls.length), Storable (fsRun (calls.take n)) calls[n]) := by
  exact ⟨directory_fsInit.distinct, Machine.along_iff (fun _ call hd => hd.call_iff call)
    directory_fsInit calls⟩

/-- Thirteen more files fill the table, and making a directory that exists fails. -/
theorem fsCreate_existing_fails :
    let full := "abcdefghijklm".toList.map fun c => FsCall.create ['/', c]
    let fs := fsRun full
    (findFile fs "/logs/".toList).isSome = true ∧ (fsCreate fs "/logs/".toList).2 = -1 ∧
      ¬KeepsSet fs (.create "/logs/".toList) := by
  intro full fs
  have hfound : (findFile fs "/logs/".toList).isSome = true := by decide +kernel
  have hret : (fsCreate fs "/logs/".toList).2 = -1 := by decide +kernel
  refine ⟨hfound, hret, fun hk => ?_⟩
  have hzero := congrArg Prod.snd (hk.2.2 hfound)
  rw [hret] at hzero
  cases hzero

end FleetOS
