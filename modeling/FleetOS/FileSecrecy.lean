import FleetOS.FileAtomicity

/-!
# The bytes of deleted files

`fs_delete` clears the blocks of the file, so what was written to a file that is deleted before
it is read should not show anywhere. Two sequences of calls are compared that differ only in
such bytes (`DifferInDeleted`). The two file systems differ at most in the blocks of the files
that hold such bytes (`Alike`), and every call keeps this : a write takes free blocks, a delete
clears the blocks in both, and a read goes along the chain of one file.

The exception is the write whose size overflows when it is rounded up. It links a block to the
file that stays free, another file takes the block too, and reading the first file gives the
bytes of the second (`fsReturns_hidden_byte`).
-/

namespace FleetOS

open LinkedChain

/-- What a call returns, with the bytes it has read. -/
def fsReturn (fs : FileSystem) : FsCall → ℤ × List UInt8
  | .create path => ((fsCreate fs path).2, [])
  | .write path data size => ((fsWrite fs path data size).2, [])
  | .read path size => fsRead fs path size
  | .delete path => ((fsDelete fs path).2, [])

def fsReturns : FileSystem → List FsCall → List (ℤ × List UInt8)
  | _, [] => []
  | fs, call :: calls => fsReturn fs call :: fsReturns (fsCall fs call) calls

/-- The entry of the file that a write puts bytes in. -/
def writtenEntry (fs : FileSystem) (path : CString) (data : List UInt8) (size : ℤ) : Finset ℕ :=
  if 0 < (fsWrite fs path data size).2 then (openForWrite fs path).2.toFinset else ∅

/-- Two sequences of calls that differ only in the bytes written to files that are deleted
before they are read. The entries of the files that hold such bytes now are `hidden`. -/
inductive DifferInDeleted : FileSystem → Finset ℕ → List FsCall → List FsCall → Prop
  | nil {fs : FileSystem} {hidden : Finset ℕ} (h : hidden = ∅) : DifferInDeleted fs hidden [] []
  | create {fs : FileSystem} {hidden : Finset ℕ} {calls calls' : List FsCall} (path : CString)
      (h : DifferInDeleted (fsCall fs (.create path)) hidden calls calls') :
      DifferInDeleted fs hidden (.create path :: calls) (.create path :: calls')
  | write {fs : FileSystem} {hidden : Finset ℕ} {calls calls' : List FsCall} (path : CString)
      (data : List UInt8) (size : ℤ)
      (h : DifferInDeleted (fsCall fs (.write path data size)) hidden calls calls') :
      DifferInDeleted fs hidden (.write path data size :: calls) (.write path data size :: calls')
  | writeOther {fs : FileSystem} {hidden : Finset ℕ} {calls calls' : List FsCall} (path : CString)
      (data data' : List UInt8) (size : ℤ)
      (h : DifferInDeleted (fsCall fs (.write path data size))
        (hidden ∪ writtenEntry fs path data size) calls calls') :
      DifferInDeleted fs hidden (.write path data size :: calls) (.write path data' size :: calls')
  | read {fs : FileSystem} {hidden : Finset ℕ} {calls calls' : List FsCall} (path : CString)
      (size : ℤ) (hread : Disjoint (findFile fs path).toFinset hidden)
      (h : DifferInDeleted (fsCall fs (.read path size)) hidden calls calls') :
      DifferInDeleted fs hidden (.read path size :: calls) (.read path size :: calls')
  | delete {fs : FileSystem} {hidden : Finset ℕ} {calls calls' : List FsCall} (path : CString)
      (h : DifferInDeleted (fsCall fs (.delete path)) (hidden \ (findFile fs path).toFinset)
        calls calls') :
      DifferInDeleted fs hidden (.delete path :: calls) (.delete path :: calls')

/-- The path names a file, or a file with the path can be made and found again. -/
def Opens (fs : FileSystem) (path : CString) : Prop :=
  (findFile fs path).isSome = true ∨
    fs.fileCount < maxFiles ∧ (findUnused fs).isSome = true ∧ path.length ≤ 63

/-- A write that gets as far as the loop, with a size that overflows when it is rounded up. -/
def RoundsOver (fs : FileSystem) : FsCall → Prop
  | .write path _ size => intMax < size + blockSize - 1 ∧ Opens fs path ∧ HasFreeBlock fs
  | _ => False

/-- No call of the sequence rounds over. -/
def RoundsUp : FileSystem → List FsCall → Prop
  | _, [] => True
  | fs, call :: calls => ¬RoundsOver fs call ∧ RoundsUp (fsCall fs call) calls

/-! ## Equal but for some blocks -/

/-- The tables are equal, and so are the bytes of the blocks not in `s`. -/
def SameBut (s : Set ℤ) (fs fs' : FileSystem) : Prop :=
  ∃ d, fs' = { fs with data := d } ∧ ∀ b ∉ s, d b = fs.data b

variable {fs fs' : FileSystem} {s t : Set ℤ}

theorem SameBut.refl (s : Set ℤ) (fs : FileSystem) : SameBut s fs fs := ⟨fs.data, rfl, fun _ _ => rfl⟩

theorem SameBut.data (h : SameBut s fs fs') {b : ℤ} (hb : b ∉ s) : fs'.data b = fs.data b := by
  obtain ⟨d, rfl, hd⟩ := h
  exact hd b hb

theorem SameBut.findFile (h : SameBut s fs fs') (path : CString) :
    findFile fs' path = findFile fs path := by
  obtain ⟨d, rfl, -⟩ := h
  rfl

theorem SameBut.fileBlocks (h : SameBut s fs fs') (i : ℕ) : fileBlocks fs' i = fileBlocks fs i := by
  obtain ⟨d, rfl, -⟩ := h
  rfl

theorem SameBut.wellFormed (h : SameBut s fs fs') (hwf : WellFormed fs) : WellFormed fs' := by
  obtain ⟨d, rfl, -⟩ := h
  exact ⟨hwf.entry, hwf.chain, hwf.disjoint, hwf.free⟩

/-- Equal tables, and the bytes are equal where they are said to be. -/
theorem SameBut.of_data (h : SameBut t fs fs') (hd : ∀ b ∉ s, fs'.data b = fs.data b) :
    SameBut s fs fs' := by
  obtain ⟨d, rfl, -⟩ := h
  exact ⟨d, rfl, hd⟩

theorem SameBut.mono (h : SameBut s fs fs') (hst : s ⊆ t) : SameBut t fs fs' :=
  h.of_data fun _ hb => h.data fun hs => hb (hst hs)

theorem SameBut.fsCreate (h : SameBut s fs fs') (path : CString) :
    SameBut s (fsCreate fs path).1 (fsCreate fs' path).1 ∧
      (FleetOS.fsCreate fs' path).2 = (FleetOS.fsCreate fs path).2 := by
  obtain ⟨d, rfl, hd⟩ := h
  have hfind : FleetOS.findFile { fs with data := d } path = FleetOS.findFile fs path := rfl
  have hunused : findUnused { fs with data := d } = findUnused fs := rfl
  unfold FleetOS.fsCreate
  rw [hfind, hunused]
  split_ifs
  · exact ⟨⟨d, rfl, hd⟩, rfl⟩
  · exact ⟨⟨d, rfl, hd⟩, rfl⟩
  · cases findUnused fs with
    | none => exact ⟨⟨d, rfl, hd⟩, rfl⟩
    | some idx => exact ⟨⟨d, rfl, hd⟩, rfl⟩

theorem SameBut.openForWrite (h : SameBut s fs fs') (path : CString) :
    SameBut s (openForWrite fs path).1 (openForWrite fs' path).1 ∧
      (FleetOS.openForWrite fs' path).2 = (FleetOS.openForWrite fs path).2 := by
  obtain ⟨hc, hret⟩ := h.fsCreate path
  unfold FleetOS.openForWrite
  rw [h.findFile]
  cases FleetOS.findFile fs path with
  | some idx => exact ⟨h, rfl⟩
  | none =>
    dsimp only
    rw [hret]
    split_ifs
    · exact ⟨hc, rfl⟩
    · exact ⟨hc, hc.findFile path⟩

theorem SameBut.freeBlocks : ∀ {fs fs' : FileSystem} (fuel : ℕ) (blk : ℤ), SameBut s fs fs' →
    SameBut s (freeBlocks fuel blk fs) (freeBlocks fuel blk fs')
  | _, _, 0, _, h => h
  | fs, _, fuel + 1, blk, h => by
    obtain ⟨d, rfl, hd⟩ := h
    rw [FleetOS.freeBlocks, FleetOS.freeBlocks]
    split_ifs
    · exact ⟨d, rfl, hd⟩
    · refine SameBut.freeBlocks fuel _ ⟨Function.update d blk fun _ => 0, rfl, fun b hb => ?_⟩
      dsimp only [setFat]
      rw [Function.update_apply, Function.update_apply, hd b hb]

theorem SameBut.fsDelete (h : SameBut s fs fs') (path : CString) :
    SameBut s (fsDelete fs path).1 (fsDelete fs' path).1 ∧
      (FleetOS.fsDelete fs' path).2 = (FleetOS.fsDelete fs path).2 := by
  have hfree := fun blk => h.freeBlocks blockCount blk
  unfold FleetOS.fsDelete
  rw [h.findFile]
  cases FleetOS.findFile fs path with
  | none => exact ⟨h, rfl⟩
  | some idx =>
    obtain ⟨d, rfl, -⟩ := h
    obtain ⟨d', he, hd'⟩ := hfree (fs.files idx).firstBlock
    dsimp only
    rw [he]
    exact ⟨⟨d', rfl, hd'⟩, rfl⟩

/-! ## Writing to both -/

section Write

variable {src src' : List UInt8}

theorem SameBut.fillBlock (h : SameBut s fs fs') (hsrc : ∀ b ∉ s, src' = src) (prev cur : ℤ)
    (written chunk : ℕ) :
    SameBut s (fillBlock fs src prev cur written chunk) (fillBlock fs' src' prev cur written chunk) := by
  obtain ⟨d, rfl, hd⟩ := h
  refine SameBut.of_data (t := Set.univ)
    ⟨(FleetOS.fillBlock { fs with data := d } src' prev cur written chunk).data, ?_, ?_⟩
    fun b hb => ?_
  · unfold FleetOS.fillBlock setFat copyToBlock
    split_ifs <;> rfl
  · exact fun b hb => absurd (Set.mem_univ b) hb
  · rw [(fillBlock_rest _ _ _ _ _ _).1, (fillBlock_rest _ _ _ _ _ _).1, hsrc b hb]
    unfold copyToBlock
    dsimp only
    rw [Function.update_apply, Function.update_apply]
    split_ifs with he
    · rw [← he, hd b hb]
    · exact hd b hb

/-- The loop looks at the tables only, and takes its bytes from the source. -/
theorem SameBut.writeBlocks (hsrc : ∀ b ∉ s, src' = src) (size : ℕ) :
    ∀ {fs fs' : FileSystem} (rest : ℕ) (prev cur : ℤ) (written : ℕ), SameBut s fs fs' →
      SameBut s (writeBlocks src size rest fs prev cur written).1
        (writeBlocks src' size rest fs' prev cur written).1 ∧
      (FleetOS.writeBlocks src' size rest fs' prev cur written).2 =
        (FleetOS.writeBlocks src size rest fs prev cur written).2
  | _, _, 0, _, _, _, h => ⟨h, rfl⟩
  | fs, fs', rest + 1, prev, cur, written, h => by
    by_cases hlt : written < size
    · rw [writeBlocks_succ src size rest fs prev cur hlt, writeBlocks_succ src' size rest fs' prev cur hlt]
      have hfill := h.fillBlock hsrc prev cur written (min blockSize (size - written))
      have hnext : findFreeBlock (FleetOS.fillBlock fs' src' prev cur written
          (min blockSize (size - written))) = findFreeBlock (FleetOS.fillBlock fs src prev cur written
          (min blockSize (size - written))) := by
        obtain ⟨d, he, -⟩ := hfill
        rw [he]
        rfl
      dsimp only
      rw [hnext]
      split_ifs
      · exact ⟨hfill, rfl⟩
      · exact SameBut.writeBlocks hsrc size rest _ _ _ hfill
    · rw [FleetOS.writeBlocks, FleetOS.writeBlocks, if_pos (not_lt.mp hlt), if_pos (not_lt.mp hlt)]
      exact ⟨h, rfl⟩

theorem SameBut.writeFile (h : SameBut s fs fs') (hsrc : ∀ b ∉ s, src' = src) (idx : ℕ)
    (size total first : ℤ) :
    SameBut s (writeFile fs idx src size total first).1 (writeFile fs' idx src' size total first).1 ∧
      (FleetOS.writeFile fs' idx src' size total first).2 =
        (FleetOS.writeFile fs idx src size total first).2 := by
  obtain ⟨⟨d, he, hd⟩, hret⟩ := SameBut.writeBlocks hsrc size.toNat total.toNat (-1) first 0 h
  unfold FleetOS.writeFile
  dsimp only
  rw [he, hret]
  dsimp only
  split_ifs
  · exact ⟨⟨d, rfl, hd⟩, rfl⟩
  · exact ⟨⟨d, rfl, hd⟩, rfl⟩

theorem SameBut.fsWrite (h : SameBut s fs fs') (src src' : List UInt8) (hsrc : ∀ b ∉ s, src' = src)
    (path : CString) (size : ℤ) : SameBut s (fsWrite fs path src size).1 (fsWrite fs' path src' size).1 ∧
      (FleetOS.fsWrite fs' path src' size).2 = (FleetOS.fsWrite fs path src size).2 := by
  obtain ⟨hopen, hidx⟩ := h.openForWrite path
  have hfirst : findFreeBlock (FleetOS.openForWrite fs' path).1 =
      findFreeBlock (FleetOS.openForWrite fs path).1 := by
    obtain ⟨d, he, -⟩ := hopen
    rw [he]
    rfl
  unfold FleetOS.fsWrite
  dsimp only
  rw [hidx, hfirst]
  by_cases hpos : size ≤ 0
  · rw [if_pos hpos, if_pos hpos]
    exact ⟨h, rfl⟩
  · rw [if_neg hpos, if_neg hpos]
    cases (FleetOS.openForWrite fs path).2 with
    | none => exact ⟨hopen, rfl⟩
    | some idx =>
      dsimp only
      split_ifs
      · exact ⟨hopen, rfl⟩
      · exact ⟨hopen, rfl⟩
      · exact hopen.writeFile hsrc idx _ _ _

end Write

/-! ## What a write does that does not round over -/

theorem fat_openForWrite (fs : FileSystem) (path : CString) : (openForWrite fs path).1.fat = fs.fat := by
  rcases openForWrite_cases fs path with ⟨idx, -, he⟩ | ⟨-, he, -⟩ | ⟨-, -, idx, -, -, -, he⟩ <;> rw [he]
  rfl

theorem opens_of_some {path : CString} {idx : ℕ} (h : (openForWrite fs path).2 = some idx) :
    Opens fs path := by
  rcases openForWrite_cases fs path with
    ⟨i, hfind, -⟩ | ⟨-, -, hfail⟩ | ⟨hnone, hcount, i, hi, hu, hall, hopen⟩
  · left
    rw [hfind]
    rfl
  · rw [hfail] at h
    cases h
  · right
    rw [hopen, findFile_withFile hi hnone] at h
    refine ⟨hcount, ?_, ?_⟩
    · rw [findUnused_eq hi hu hall]
      rfl
    · by_contra hlen
      rw [if_neg hlen] at h
      cases h

/-- It fails once the file is open, or it appends. -/
theorem fsWrite_cases_of_not_roundsOver (h : WellFormed fs) (path : CString) (src : List UInt8)
    {size : ℤ} (hpos : 0 < size) (hok : ¬RoundsOver fs (.write path src size)) :
    fsWrite fs path src size = ((openForWrite fs path).1, -1) ∨
      ∃ (idx n : ℕ) (l : List ℤ), (openForWrite fs path).2 = some idx ∧
        (fsWrite fs path src size).2 = n ∧ 0 < n ∧
        Appended (openForWrite fs path).1 (fsWrite fs path src size).1 idx (padded src size) n l := by
  by_cases hfit : size + blockSize - 1 ≤ intMax
  · rw [← fsWrite_padded]
    refine (fsWrite_cases h path hpos hfit (size_le_padded src size)).imp_right ?_
    rintro ⟨idx, n, l, hidx, hret, hn, -, ha⟩
    exact ⟨idx, n, l, hidx, hret, hn, ha⟩
  · left
    cases hopen : (openForWrite fs path).2 with
    | none =>
      rw [fsWrite, if_neg (not_le.mpr hpos)]
      dsimp only
      rw [hopen]
    | some idx =>
      have hfull : findFreeBlock (openForWrite fs path).1 < 0 := by
        refine not_le.mp fun h0 => hok ⟨not_le.mp hfit, opens_of_some hopen, ?_⟩
        have hfree := findFreeBlock_nonneg_iff.mp h0
        unfold HasFreeBlock at hfree ⊢
        rwa [fat_openForWrite] at hfree
      rw [fsWrite_of_open src hpos (Prod.ext rfl hopen), if_pos hfull, ite_self]

/-! ## The two runs -/

/-- The blocks of the files in `hidden`. -/
def hiddenBlocks (fs : FileSystem) (hidden : Finset ℕ) : Set ℤ :=
  {b | ∃ i ∈ hidden, b ∈ fileBlocks fs i}

/-- Well-formed file systems that differ only in the blocks of the files in `hidden`. -/
structure Alike (hidden : Finset ℕ) (fs fs' : FileSystem) : Prop where
  wellFormed : WellFormed fs
  used : ∀ i ∈ hidden, i < maxFiles ∧ (fs.files i).used = true
  same : SameBut (hiddenBlocks fs hidden) fs fs'

variable {hidden : Finset ℕ} {fs₁ fs₁' : FileSystem}

/-- Making a file takes an unused entry, which is not hidden. -/
theorem Alike.hiddenBlocks_withFile (h : Alike hidden fs fs') {idx : ℕ}
    (hu : (fs.files idx).used = false) (path : CString) :
    (∀ i ∈ hidden, i ≠ idx) ∧ hiddenBlocks (withFile fs idx path) hidden = hiddenBlocks fs hidden := by
  have hne : ∀ i ∈ hidden, i ≠ idx := by
    rintro i hi rfl
    rw [(h.used i hi).2] at hu
    cases hu
  refine ⟨hne, Set.ext fun b => exists_congr fun i => and_congr_right fun hi => ?_⟩
  obtain ⟨hlt, hiu⟩ := h.used i hi
  rw [(sameFile_withFile fs path (hne i hi)).fileBlocks_eq h.wellFormed.chains hlt hiu]

theorem Alike.withFile (h : Alike hidden fs fs') {idx : ℕ} (hu : (fs.files idx).used = false)
    (path : CString) (hsame : SameBut (hiddenBlocks fs hidden) (withFile fs idx path) fs₁') :
    Alike hidden (withFile fs idx path) fs₁' := by
  obtain ⟨hne, hblocks⟩ := h.hiddenBlocks_withFile hu path
  refine ⟨h.wellFormed.withFile hu path, fun i hi => ?_, hblocks ▸ hsame⟩
  rw [withFile_of_ne fs path (hne i hi)]
  exact h.used i hi

theorem Alike.create (h : Alike hidden fs fs') (path : CString) :
    Alike hidden (fsCreate fs path).1 (fsCreate fs' path).1 := by
  have hsame := (h.same.fsCreate path).1
  rcases fsCreate_cases fs path with he | ⟨-, -, idx, -, hu, -, he⟩
  · rw [he] at hsame ⊢
    exact ⟨h.wellFormed, h.used, hsame⟩
  · rw [he] at hsame ⊢
    exact h.withFile hu path hsame

theorem Alike.opened (h : Alike hidden fs fs') (path : CString) :
    Alike hidden (openForWrite fs path).1 (openForWrite fs' path).1 ∧
      hiddenBlocks (openForWrite fs path).1 hidden = hiddenBlocks fs hidden := by
  have hsame := (h.same.openForWrite path).1
  rcases openForWrite_cases fs path with ⟨idx, -, he⟩ | ⟨-, he, -⟩ | ⟨-, -, idx, -, hu, -, he⟩
  · rw [he] at hsame ⊢
    exact ⟨⟨h.wellFormed, h.used, hsame⟩, rfl⟩
  · rw [he] at hsame ⊢
    exact ⟨⟨h.wellFormed, h.used, hsame⟩, rfl⟩
  · rw [he] at hsame ⊢
    exact ⟨h.withFile hu path hsame, (h.hiddenBlocks_withFile hu path).2⟩

/-- The blocks of a file after an append. -/
theorem Appended.fileBlocks_eq {idx n : ℕ} {src : List UInt8} {l : List ℤ}
    (a : Appended fs fs₁ idx src n l) (h : WellFormed fs) (hidx : idx < maxFiles)
    (hu : (fs.files idx).used = true) : fileBlocks fs₁ idx = fileBlocks fs idx ++ l :=
  FleetOS.fileBlocks_eq a.chain fun b hb =>
    (List.mem_append.mp hb).elim ((h.chain idx hidx hu).2 b) fun hb => (a.free b hb).1

theorem Appended.fileBlocks_subset {idx n : ℕ} {src : List UInt8} {l : List ℤ}
    (a : Appended fs fs₁ idx src n l) (h : WellFormed fs) (hidx : idx < maxFiles)
    (hu : (fs.files idx).used = true) {i : ℕ} (hi : i < maxFiles) (hiu : (fs.files i).used = true) :
    fileBlocks fs i ⊆ fileBlocks fs₁ i := by
  by_cases hii : i = idx
  · rw [hii, a.fileBlocks_eq h hidx hu]
    exact List.subset_append_left _ _
  · rw [(a.sameFile h hidx hu hi hiu hii).fileBlocks_eq h.chains hi hiu]
    exact List.Subset.refl _

/-- An append leaves the hidden files where they are, except that one of them may get longer. -/
theorem Alike.append (h : Alike hidden fs fs') {idx n : ℕ} {src : List UInt8} {l : List ℤ}
    (hidx : idx < maxFiles) (hu : (fs.files idx).used = true) (a : Appended fs fs₁ idx src n l)
    (hsame : SameBut (hiddenBlocks fs hidden) fs₁ fs₁') : Alike hidden fs₁ fs₁' := by
  refine ⟨a.wellFormed h.wellFormed hidx hu, fun i hi => ⟨(h.used i hi).1, ?_⟩, hsame.mono ?_⟩
  · rw [(a.used i).1]
    exact (h.used i hi).2
  · rintro b ⟨i, hi, hb⟩
    exact ⟨i, hi, a.fileBlocks_subset h.wellFormed hidx hu (h.used i hi).1 (h.used i hi).2 hb⟩

theorem fsWrite_of_nonpos (fs : FileSystem) (path : CString) (src : List UInt8) {size : ℤ}
    (hsize : size ≤ 0) : fsWrite fs path src size = (fs, -1) := by
  rw [fsWrite, if_pos hsize]

/-- The same bytes are written to both. -/
theorem Alike.write (h : Alike hidden fs fs') (path : CString) (src : List UInt8) {size : ℤ}
    (hok : ¬RoundsOver fs (.write path src size)) :
    Alike hidden (fsWrite fs path src size).1 (fsWrite fs' path src size).1 := by
  obtain ⟨hsame, -⟩ := h.same.fsWrite src src (fun _ _ => rfl) path size
  by_cases hpos : 0 < size
  · obtain ⟨hopen, hblocks⟩ := h.opened path
    rw [← hblocks] at hsame
    rcases fsWrite_cases_of_not_roundsOver h.wellFormed path src hpos hok with
      he | ⟨idx, n, l, hidx, -, -, ha⟩
    · rw [he] at hsame ⊢
      exact ⟨hopen.wellFormed, hopen.used, hsame⟩
    · obtain ⟨hlt, hu, -⟩ := findFile_eq_some (openForWrite_some hidx)
      exact hopen.append hlt hu ha hsame
  · rw [fsWrite_of_nonpos fs path src (not_lt.mp hpos), fsWrite_of_nonpos fs' path src (not_lt.mp hpos)]
    exact h

/-- Other bytes are written to the second : the file is hidden from then on. -/
theorem Alike.writeOther (h : Alike hidden fs fs') (path : CString) (src src' : List UInt8) {size : ℤ}
    (hok : ¬RoundsOver fs (.write path src size)) :
    Alike (hidden ∪ writtenEntry fs path src size) (fsWrite fs path src size).1
        (fsWrite fs' path src' size).1 ∧
      (fsWrite fs' path src' size).2 = (fsWrite fs path src size).2 := by
  obtain ⟨hsame, hret⟩ := (h.same.mono (Set.subset_univ _)).fsWrite src src'
    (fun b hb => absurd (Set.mem_univ b) hb) path size
  refine ⟨?_, hret⟩
  by_cases hpos : 0 < size
  · obtain ⟨hopen, -⟩ := h.opened path
    have hok' : ¬RoundsOver fs' (.write path src' size) := by
      obtain ⟨d, rfl, -⟩ := h.same
      exact hok
    have hcases' := fsWrite_cases_of_not_roundsOver (h.same.wellFormed h.wellFormed) path src' hpos hok'
    rcases fsWrite_cases_of_not_roundsOver h.wellFormed path src hpos hok with
      he | ⟨idx, n, l, hidx, hn, hnpos, ha⟩
    · rcases hcases' with he' | ⟨-, n', -, -, hn', hpos', -⟩
      · have hnone : writtenEntry fs path src size = ∅ := by
          rw [writtenEntry, he]
          rfl
        rw [he, he', hnone, Finset.union_empty]
        exact hopen
      · rw [hret, he] at hn'
        dsimp only at hn'
        omega
    · rcases hcases' with he' | ⟨idx', n', l', hidx', -, -, ha'⟩
      · rw [he'] at hret
        dsimp only at hret
        omega
      · have hwritten : writtenEntry fs path src size = {idx} := by
          rw [writtenEntry, hidx, if_pos (by omega)]
          rfl
        obtain ⟨hlt, hu, -⟩ := findFile_eq_some (openForWrite_some hidx)
        obtain ⟨hlt', hu', -⟩ := findFile_eq_some (openForWrite_some hidx')
        have hidx_eq : idx' = idx := by
          rw [(h.same.openForWrite path).2, hidx] at hidx'
          exact (Option.some.inj hidx').symm
        subst hidx_eq
        have hwf' := hopen.same.wellFormed hopen.wellFormed
        have hnew := ha.fileBlocks_eq hopen.wellFormed hlt hu
        have hnew' := ha'.fileBlocks_eq hwf' hlt' hu'
        have hgrown : Alike hidden (fsWrite fs path src size).1 (fsWrite fs path src size).1 :=
          Alike.append ⟨hopen.wellFormed, hopen.used, .refl _ _⟩ hlt hu ha (.refl _ _)
        rw [hwritten]
        refine ⟨hgrown.wellFormed, fun i hi => ?_, hsame.of_data fun b hb => ?_⟩
        · rcases Finset.mem_union.mp hi with hi | hi
          · exact hgrown.used i hi
          · rw [Finset.mem_singleton.mp hi]
            exact ⟨hlt, (ha.used idx').1.trans hu⟩
        · -- off the chain of the file both are as they were
          have hoff : b ∉ fileBlocks (fsWrite fs path src size).1 idx' := fun hbi =>
            hb ⟨idx', Finset.mem_union_right _ (Finset.mem_singleton_self idx'), hbi⟩
          have hoff' := hoff
          rw [← hsame.fileBlocks, hnew'] at hoff'
          rw [hnew] at hoff
          rw [ha.data b fun hbl => hoff (List.mem_append_right _ hbl),
            ha'.data b fun hbl => hoff' (List.mem_append_right _ hbl)]
          refine hopen.same.data ?_
          rintro ⟨i, hi, hbi⟩
          exact hb ⟨i, Finset.mem_union_left _ hi, ha.fileBlocks_subset hopen.wellFormed hlt hu
            (hopen.used i hi).1 (hopen.used i hi).2 hbi⟩
  · have hnone : writtenEntry fs path src size = ∅ := by
      rw [writtenEntry, fsWrite_of_nonpos fs path src (not_lt.mp hpos)]
      rfl
    rw [fsWrite_of_nonpos fs path src (not_lt.mp hpos), fsWrite_of_nonpos fs' path src' (not_lt.mp hpos),
      hnone, Finset.union_empty]
    exact h

/-- A file that is not hidden reads the same. -/
theorem Alike.fsRead_eq (h : Alike hidden fs fs') {path : CString} (size : ℤ)
    (hread : Disjoint (findFile fs path).toFinset hidden) :
    fsRead fs' path size = fsRead fs path size := by
  refine fsRead_congr h.wellFormed.chains (h.same.wellFormed h.wellFormed).chains
    (h.same.findFile path) (fun idx hf => ?_) size
  obtain ⟨hlt, hu, -⟩ := findFile_eq_some hf
  have hidx : idx ∉ hidden := by
    rw [hf] at hread
    simpa using hread
  obtain ⟨d, rfl, hd⟩ := h.same
  refine ⟨rfl, fun _ _ => rfl, fun b hb => hd b ?_⟩
  rintro ⟨i, hi, hbi⟩
  have hne : i ≠ idx := fun he => hidx (he ▸ hi)
  exact h.wellFormed.disjoint i (h.used i hi).1 idx hlt (h.used i hi).2 hu hne b hbi hb

/-- A delete clears the blocks of its file in both. -/
theorem Alike.delete (h : Alike hidden fs fs') (path : CString) :
    Alike (hidden \ (findFile fs path).toFinset) (fsDelete fs path).1 (fsDelete fs' path).1 := by
  obtain ⟨hsame, -⟩ := h.same.fsDelete path
  have hwf' := h.same.wellFormed h.wellFormed
  rcases fsDelete_cases h.wellFormed.chains path with ⟨hf, he⟩ | ⟨idx, hf, -, r⟩
  · rw [he] at hsame ⊢
    rw [hf, Option.toFinset_none, Finset.sdiff_empty]
    exact ⟨h.wellFormed, h.used, hsame⟩
  · rcases fsDelete_cases hwf'.chains path with ⟨hf', -⟩ | ⟨idx', hf', -, r'⟩
    · rw [h.same.findFile, hf] at hf'
      cases hf'
    · obtain rfl : idx = idx' := by
        rw [h.same.findFile, hf] at hf'
        exact Option.some.inj hf'
      obtain ⟨hlt, hu, -⟩ := findFile_eq_some hf
      rw [hf, Option.toFinset_some]
      have hkept : ∀ i ∈ hidden \ {idx}, i ∈ hidden ∧ i ≠ idx := fun i hi => by
        simpa using hi
      refine ⟨r.wellFormed h.wellFormed hlt hu, fun i hi => ?_, hsame.of_data fun b hb => ?_⟩
      · obtain ⟨hi, hne⟩ := hkept i hi
        rw [r.files i hne]
        exact h.used i hi
      · rw [r.data, r'.data, h.same.fileBlocks]
        split_ifs with hbi
        · rfl
        · refine h.same.data ?_
          rintro ⟨i, hi, hbh⟩
          have hne : i ≠ idx := fun he => hbi (he ▸ hbh)
          obtain ⟨hil, hiu⟩ := h.used i hi
          refine hb ⟨i, by simp [hi, hne], ?_⟩
          rwa [(r.sameFile h.wellFormed.chains hlt hu hil hiu hne).fileBlocks_eq h.wellFormed.chains
            hil hiu]

/-- Alike file systems return the same, as long as no call rounds over. -/
theorem Alike.fsReturns_eq {calls calls' : List FsCall} (hdiff : DifferInDeleted fs hidden calls calls') :
    ∀ {fs' : FileSystem}, Alike hidden fs fs' → RoundsUp fs calls →
      fsReturns fs' calls' = fsReturns fs calls := by
  induction hdiff with
  | nil => exact fun _ _ => rfl
  | create path _ ih =>
    intro fs' h hok
    have hret := (h.same.fsCreate path).2
    simp only [fsReturns, fsReturn, hret]
    exact congrArg _ (ih (h.create path) hok.2)
  | write path src size _ ih =>
    intro fs' h hok
    have hret := (h.same.fsWrite src src (fun _ _ => rfl) path size).2
    simp only [fsReturns, fsReturn, hret]
    exact congrArg _ (ih (h.write path src hok.1) hok.2)
  | writeOther path src src' size _ ih =>
    intro fs' h hok
    obtain ⟨hnext, hret⟩ := h.writeOther path src src' hok.1
    simp only [fsReturns, fsReturn, hret]
    exact congrArg _ (ih hnext hok.2)
  | read path size hread _ ih =>
    intro fs' h hok
    simp only [fsReturns, fsReturn, h.fsRead_eq size hread]
    exact congrArg _ (ih h hok.2)
  | delete path _ ih =>
    intro fs' h hok
    have hret := (h.same.fsDelete path).2
    simp only [fsReturns, fsReturn, hret]
    exact congrArg _ (ih (h.delete path) hok.2)

/-- What was written to files that are deleted before they are read does not show, in every run
whose writes do not round over. -/
theorem fsReturns_of_differInDeleted {fs : FileSystem} (h : WellFormed fs) {calls calls' : List FsCall}
    (hdiff : DifferInDeleted fs ∅ calls calls') (hok : RoundsUp fs calls) :
    fsReturns fs calls' = fsReturns fs calls :=
  Alike.fsReturns_eq hdiff ⟨h, fun i hi => absurd hi (Finset.notMem_empty i), .refl _ _⟩ hok

/-- A byte is written and deleted, and its block is used again. -/
theorem fsReturns_of_differInDeleted_reused :
    fsReturns emptyDisk [.write "/logs/s".toList [2] 1, .delete "/logs/s".toList,
        .write "/logs/a".toList [7] 1, .read "/logs/a".toList 64] =
      fsReturns emptyDisk [.write "/logs/s".toList [1] 1, .delete "/logs/s".toList,
        .write "/logs/a".toList [7] 1, .read "/logs/a".toList 64] := by
  have hfit : ∀ (fs : FileSystem) (path : CString) (src : List UInt8),
      ¬RoundsOver fs (.write path src 1) := fun fs path src h => absurd h.1 (by decide)
  refine fsReturns_of_differInDeleted wellFormed_emptyDisk
    (.writeOther _ [1] [2] 1 (.delete _ (.write _ _ _ (.read _ _ ?_ (.nil ?_)))))
    ⟨hfit _ _ _, fun h => h, hfit _ _ _, fun h => h, trivial⟩
  · decide +kernel
  · decide +kernel

/-- The size of the first write overflows, and the file gets the block that the second write
fills. -/
def hiddenByteCalls (x : UInt8) : List FsCall :=
  [.write "/logs/a".toList [] 2147483647, .write "/logs/s".toList [x] 1,
    .write "/logs/a".toList [0] 1, .read "/logs/a".toList 1, .delete "/logs/s".toList]

/-- The byte of a file that is deleted without being read, read from another file. -/
theorem fsReturns_hidden_byte :
    WellFormed emptyDisk ∧ (∀ b, emptyDisk.fat b = -2 ∧ emptyDisk.data b = fun _ => 0) ∧
      DifferInDeleted emptyDisk ∅ (hiddenByteCalls 1) (hiddenByteCalls 2) ∧
      fsReturns emptyDisk (hiddenByteCalls 1) =
        [(0, []), (1, []), (1, []), (1, [1]), (0, [])] ∧
      fsReturns emptyDisk (hiddenByteCalls 2) =
        [(0, []), (1, []), (1, []), (1, [2]), (0, [])] ∧
      fsReturns emptyDisk (hiddenByteCalls 2) ≠ fsReturns emptyDisk (hiddenByteCalls 1) := by
  refine ⟨wellFormed_emptyDisk, fun _ => ⟨rfl, rfl⟩,
    .write _ _ _ (.writeOther _ [1] [2] 1 (.write _ _ _ (.read _ _ ?_ (.delete _ (.nil ?_))))), ?_, ?_, ?_⟩ <;>
    decide +kernel

end FleetOS
