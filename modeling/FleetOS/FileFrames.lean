import FleetOS.FileAtomicity

/-!
# What a call leaves alone

Making, writing or deleting a file touches no block of another file : the chains are disjoint,
and what a write takes was free (`OthersKept`). So the other files keep their sizes and what
reading them gives, and a delete frees the blocks of its own file only (`others_kept`).
-/

namespace FleetOS

/-- The files with another path than `p` are as they were, and are found where they were. -/
structure OthersKept (p : CString) (fs fs' : FileSystem) : Prop where
  same : ∀ i < maxFiles, (fs.files i).used = true → (fs.files i).path ≠ p → SameFile fs fs' i
  found : ∀ q, q ≠ p → findFile fs' q = findFile fs q

/-- The size of file `i`, and what `fs_read` returns for its path. -/
structure ReadsSame (fs fs' : FileSystem) (i : ℕ) : Prop where
  size : (fs'.files i).size = (fs.files i).size
  read : ∀ n, fsRead fs' (fs.files i).path n = fsRead fs (fs.files i).path n

namespace OthersKept

variable {p : CString} {fs fs' fs'' : FileSystem}

theorem refl (p : CString) (fs : FileSystem) : OthersKept p fs fs :=
  ⟨fun _ _ _ _ => ⟨rfl, fun _ _ => rfl, fun _ _ => rfl⟩, fun _ _ => rfl⟩

theorem trans (h : OthersKept p fs fs') (h' : OthersKept p fs' fs'') (hd : DisjointChains fs) :
    OthersKept p fs fs'' := by
  refine ⟨fun i hi hu hp => ?_, fun q hq => (h'.found q hq).trans (h.found q hq)⟩
  have hs := h.same i hi hu hp
  exact hs.trans (h'.same i hi (hs.entry ▸ hu) (hs.entry ▸ hp)) hd hi hu

/-- A file that is found in the same place with the same chain reads the same. -/
theorem fsRead_eq (h : OthersKept p fs fs') (hd : DisjointChains fs) (hd' : DisjointChains fs')
    {q : CString} (hq : q ≠ p) (n : ℤ) : fsRead fs' q n = fsRead fs q n := by
  refine fsRead_congr hd hd' (h.found q hq) (fun i hf => ?_) n
  obtain ⟨hi, hu, hp⟩ := findFile_eq_some hf
  exact h.same i hi hu (hp ▸ hq)

theorem readsSame (h : OthersKept p fs fs') (hd : DisjointChains fs) (hd' : DisjointChains fs')
    {i : ℕ} (hi : i < maxFiles) (hu : (fs.files i).used = true) (hp : (fs.files i).path ≠ p) :
    ReadsSame fs fs' i :=
  ⟨congrArg FileEntry.size (h.same i hi hu hp).entry, fun n => h.fsRead_eq hd hd' hp n⟩

/-! ## The calls -/

/-- A new file takes an entry that was not used. -/
theorem withFile {idx : ℕ} (hu : (fs.files idx).used = false) (hp : p.length ≤ 63) :
    OthersKept p fs (withFile fs idx p) := by
  refine ⟨fun i _ hiu _ => sameFile_withFile fs p ?_, fun q hq => findFile_congr fun i _ => ?_⟩
  · rintro rfl
    rw [hu] at hiu
    cases hiu
  · by_cases hi : i = idx
    · rw [hi, withFile_self, hu, List.take_of_length_le hp]
      exact iff_of_false (fun h => hq h.2.symm) fun h => by cases h.1
    · rw [withFile_of_ne fs p hi]

theorem create (h : WellFormed fs) (hp : p.length ≤ 63) :
    OthersKept p fs (fsCreate fs p).1 ∧ WellFormed (fsCreate fs p).1 := by
  rcases fsCreate_cases fs p with he | ⟨-, -, idx, -, hu, -, he⟩
  · rw [he]
    exact ⟨.refl p fs, h⟩
  · rw [he]
    exact ⟨withFile hu hp, h.withFile hu p⟩

theorem openForWrite (fs : FileSystem) (hp : p.length ≤ 63) :
    OthersKept p fs (openForWrite fs p).1 := by
  rcases openForWrite_cases fs p with ⟨idx, -, he⟩ | ⟨-, he, -⟩ | ⟨-, -, idx, -, hu, -, he⟩
  · rw [he]
    exact .refl p fs
  · rw [he]
    exact .refl p fs
  · rw [he]
    exact withFile hu hp

theorem write (h : WellFormed fs) (hp : p.length ≤ 63) (src : List UInt8) {size : ℤ}
    (hpos : 0 < size) (hsize : size ≤ intMax - blockSize) :
    OthersKept p fs (fsWrite fs p src size).1 ∧ WellFormed (fsWrite fs p src size).1 := by
  have hopen := h.openForWrite p
  rw [← fsWrite_padded]
  rcases fsWrite_cases h p hpos (by omega) (size_le_padded src size) with
    he | ⟨idx, n, l, hidx, -, -, -, ha⟩
  · rw [he]
    exact ⟨openForWrite fs hp, hopen⟩
  · obtain ⟨hlt, hu, hpath⟩ := findFile_eq_some (openForWrite_some hidx)
    refine ⟨(openForWrite fs hp).trans ⟨fun i hi hiu hq => ?_, fun q _ => ha.findFile_eq q⟩ h.chains,
      ha.wellFormed hopen hlt hu⟩
    refine ha.sameFile hopen hlt hu hi hiu ?_
    rintro rfl
    exact hq hpath

theorem delete (h : WellFormed fs) (p : CString) :
    OthersKept p fs (fsDelete fs p).1 ∧ WellFormed (fsDelete fs p).1 := by
  rcases fsDelete_cases h.chains p with ⟨-, he⟩ | ⟨idx, hidx, -, hr⟩
  · rw [he]
    exact ⟨.refl p fs, h⟩
  · obtain ⟨hlt, hu, hpath⟩ := findFile_eq_some hidx
    refine ⟨⟨fun i hi hiu hq => ?_, fun q hq => findFile_congr fun i _ => ?_⟩,
      hr.wellFormed h hlt hu⟩
    · refine hr.sameFile h.chains hlt hu hi hiu ?_
      rintro rfl
      exact hq hpath
    · by_cases hii : i = idx
      · rw [hii, hr.unused, hpath]
        exact iff_of_false (fun h => by cases h.1) fun h => hq h.2.symm
      · rw [hr.files i hii]

end OthersKept

/-- The blocks of the deleted file become free, and no other entry of the table changes. -/
theorem fat_fsDelete {fs : FileSystem} (h : WellFormed fs) (p : CString) (b : ℤ) :
    ((fsDelete fs p).1.fat b = -2 ∧ fs.fat b ≠ -2 ↔ b ∈ pathBlocks fs p) ∧
      (b ∉ pathBlocks fs p → (fsDelete fs p).1.fat b = fs.fat b) := by
  unfold pathBlocks
  rcases fsDelete_cases h.chains p with ⟨hf, he⟩ | ⟨idx, hf, -, hr⟩
  · rw [hf, he]
    exact ⟨iff_of_false (fun hb => hb.2 hb.1) List.not_mem_nil, fun _ => rfl⟩
  · obtain ⟨hlt, hu, -⟩ := findFile_eq_some hf
    rw [hf, hr.fat]
    dsimp only
    by_cases hb : b ∈ fileBlocks fs idx
    · rw [if_pos hb]
      exact ⟨iff_of_true ⟨rfl, h.not_free hlt hu hb⟩ hb, fun hno => absurd hb hno⟩
    · rw [if_neg hb]
      exact ⟨iff_of_false (fun hfree => hfree.2 hfree.1) hb, fun _ => rfl⟩

/-- Making, writing or deleting the file `p` changes neither the size of another file nor what
reading it returns, and a delete frees the blocks of `p` and no others. -/
theorem others_kept {fs : FileSystem} (h : WellFormed fs) {p : CString} (hp : p.length ≤ 63) :
    (∀ i < maxFiles, (fs.files i).used = true → (fs.files i).path ≠ p →
      ReadsSame fs (fsCreate fs p).1 i ∧
      (∀ src size, 0 < size → size ≤ intMax - blockSize → ReadsSame fs (fsWrite fs p src size).1 i) ∧
      ReadsSame fs (fsDelete fs p).1 i) ∧
    ∀ b, ((fsDelete fs p).1.fat b = -2 ∧ fs.fat b ≠ -2 ↔ b ∈ pathBlocks fs p) ∧
      (b ∉ pathBlocks fs p → (fsDelete fs p).1.fat b = fs.fat b) := by
  refine ⟨fun i hi hu hq => ⟨?_, fun src size hpos hsize => ?_, ?_⟩, fat_fsDelete h p⟩
  · obtain ⟨hk, hwf⟩ := OthersKept.create h hp
    exact hk.readsSame h.chains hwf.chains hi hu hq
  · obtain ⟨hk, hwf⟩ := OthersKept.write h hp src hpos hsize
    exact hk.readsSame h.chains hwf.chains hi hu hq
  · obtain ⟨hk, hwf⟩ := OthersKept.delete h p
    exact hk.readsSame h.chains hwf.chains hi hu hq

/-- A byte goes into a second file, and the first one reads as before. -/
theorem others_kept_second_file :
    let fs := (fsWrite emptyDisk "/logs/a".toList [1, 2] 2).1
    fsRead (fsWrite fs "/logs/b".toList [3] 1).1 "/logs/a".toList 5 = (2, [1, 2]) := by
  intro fs
  have hwf : WellFormed fs :=
    (OthersKept.write wellFormed_emptyDisk (by decide) [1, 2] (by decide) (by decide)).2
  have hpath : (fs.files 0).path = "/logs/a".toList := by decide +kernel
  have hother := (others_kept hwf (p := "/logs/b".toList) (by decide)).1 0 (by decide)
    (by decide +kernel) (by rw [hpath]; decide)
  have hread := (hother.2.1 [3] 1 (by decide) (by decide)).read 5
  rw [hpath] at hread
  rw [hread]
  decide +kernel

end FleetOS
