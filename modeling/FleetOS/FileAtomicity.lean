import FleetOS.FileInvariants

/-!
# Failed writes

A write should fail and change nothing, or append something (`AllOrNothing`). What can go wrong
before the file is looked up leaves nothing behind, and so does a failure on a file that exists.
A file that the write itself has made stays when the write then fails : its stored path may be
too short to be found again, the data may be too long, or the disk full. And rounding a size
near the largest `int` up gives a negative number of blocks, so that nothing is written and the
first free block is linked all the same. `fsWrite_allOrNothing_iff` says that these are the only
exceptions.
-/

namespace FleetOS

open LinkedChain

/-- The blocks and the size of the file with this path, if there is one. -/
def pathBlocks (fs : FileSystem) (path : CString) : List ℤ :=
  match findFile fs path with
  | none => []
  | some idx => fileBlocks fs idx

def pathSize (fs : FileSystem) (path : CString) : ℕ :=
  match findFile fs path with
  | none => 0
  | some idx => (fs.files idx).size

/-- The file has more blocks and `n` bytes more, and the other entries are as they were. -/
def Extended (fs fs' : FileSystem) (path : CString) (n : ℕ) : Prop :=
  ∃ idx l, findFile fs' path = some idx ∧ l ≠ [] ∧ fileBlocks fs' idx = pathBlocks fs path ++ l ∧
    (fs'.files idx).size = pathSize fs path + n ∧ ∀ i, i ≠ idx → fs'.files i = fs.files i

/-- A call that fails leaves everything as it was, a call that succeeds stores some of the data. -/
def AllOrNothing (fs : FileSystem) (path : CString) (size : ℤ) (r : FileSystem × ℤ) : Prop :=
  r = (fs, -1) ∨ ∃ n : ℕ, r.2 = n ∧ 1 ≤ n ∧ n ≤ size ∧ Extended fs r.1 path n

def HasFreeBlock (fs : FileSystem) : Prop := ∃ b ∈ blockIndices, fs.fat b = -2

/-- The file exists, and the size can be rounded up or there is no block to link; or it cannot be
made; or it can be made and found again, and all the data has a place to start. -/
def WritesWhole (fs : FileSystem) (path : CString) (size : ℤ) : Prop :=
  match findFile fs path with
  | some _ => size + blockSize - 1 ≤ intMax ∨ ¬HasFreeBlock fs
  | none =>
    (maxFiles ≤ fs.fileCount ∨ findUnused fs = none) ∨
      path.length ≤ 63 ∧ size ≤ blockSize * blockCount ∧ HasFreeBlock fs

/-! ## The parts of a write -/

theorem findFreeBlock_nonneg_iff {fs : FileSystem} : 0 ≤ findFreeBlock fs ↔ HasFreeBlock fs := by
  constructor
  · intro h
    obtain ⟨hmem, hfree⟩ := findFreeBlock_spec h
    exact ⟨_, hmem, hfree⟩
  · rintro ⟨b, hb, hfree⟩
    unfold findFreeBlock
    cases hf : blockIndices.find? fun i => decide (fs.fat i = -2) with
    | none => exact absurd hfree (by simpa using List.find?_eq_none.mp hf b hb)
    | some c => exact (mem_blockIndices.mp (List.mem_of_find?_eq_some hf)).1

/-- The number of blocks of a write is in range exactly when its size is. -/
theorem totalBlocks_le_iff {size : ℤ} (hpos : 0 < size) (hfit : size + blockSize - 1 ≤ intMax) :
    (wrapInt (size + blockSize - 1)).tdiv blockSize ≤ blockCount ↔
      size ≤ blockSize * blockCount := by
  have hb : (blockSize : ℤ) = 64 := rfl
  have hc : (blockCount : ℤ) = 64 := rfl
  have hm : intMax = 2147483647 := by decide
  rw [hb, hm] at hfit
  have hw : wrapInt (size + 64 - 1) = size + 64 - 1 := Int.bmod_eq_of_le (by omega) (by omega)
  rw [hb, hc, hw, Int.tdiv_eq_ediv_of_nonneg (by omega)]
  omega

/-- Rounding up past the largest `int` gives a negative number of blocks. -/
theorem totalBlocks_neg {size : ℤ} (hint : size ≤ intMax) (hover : intMax < size + blockSize - 1) :
    (wrapInt (size + blockSize - 1)).tdiv blockSize ≤ 0 := by
  have hb : (blockSize : ℤ) = 64 := rfl
  have hm : intMax = 2147483647 := by decide
  rw [hb, hm] at hover
  rw [hm] at hint
  have hw : wrapInt (size + 64 - 1) = -(4294967296 - (size + 64 - 1)) := by
    have := Int.bmod_neg (size + 64 - 1) (2 ^ 32) (by omega)
    unfold wrapInt
    omega
  have hdiv : 0 ≤ (4294967296 - (size + 64 - 1)).tdiv 64 :=
    Int.tdiv_nonneg (by omega) (by decide)
  rw [hb, hw, Int.neg_tdiv]
  omega

/-- What a write does once its file is open. -/
theorem fsWrite_of_open {fs fs₁ : FileSystem} {path : CString} {idx : ℕ} (src : List UInt8)
    {size : ℤ} (hpos : 0 < size) (hopen : openForWrite fs path = (fs₁, some idx)) :
    fsWrite fs path src size =
      if blockCount < (wrapInt (size + blockSize - 1)).tdiv blockSize then (fs₁, -1)
      else if findFreeBlock fs₁ < 0 then (fs₁, -1)
      else writeFile fs₁ idx src size ((wrapInt (size + blockSize - 1)).tdiv blockSize)
        (findFreeBlock fs₁) := by
  rw [fsWrite, if_neg (not_le.mpr hpos), hopen]

/-- With no blocks to write the loop does nothing, and the result is `0`. -/
theorem writeFile_ret_zero (fs : FileSystem) (idx : ℕ) (src : List UInt8) (size : ℤ) {total : ℤ}
    (htotal : total ≤ 0) (first : ℤ) : (writeFile fs idx src size total first).2 = 0 := by
  have hzero : total.toNat = 0 := by omega
  rw [writeFile, hzero]
  rfl

/-- A result `0` is neither a failure nor a success. -/
theorem not_allOrNothing_zero {fs : FileSystem} {path : CString} {size : ℤ} {r : FileSystem × ℤ}
    (hr : r.2 = 0) : ¬AllOrNothing fs path size r := by
  rintro (rfl | ⟨n, hn, hone, -⟩)
  · cases hr
  · omega

/-- A failure that leaves a new file behind. -/
theorem not_allOrNothing_left {fs : FileSystem} {path : CString} {size : ℤ} {idx : ℕ} :
    ¬AllOrNothing fs path size (withFile fs idx path, -1) := by
  rintro (h | ⟨n, hn, hone, -⟩)
  · have hcount := congrArg (fun r => r.1.fileCount) h
    simp only [withFile] at hcount
    omega
  · dsimp only at hn
    omega

/-- A write to an open file that has room and a block to start with. -/
theorem allOrNothing_writeFile {fs fs₁ : FileSystem} {path : CString} {idx : ℕ} {src : List UInt8}
    {size : ℤ} (h : WellFormed fs₁) (hfind : findFile fs₁ path = some idx)
    (hblocks : fileBlocks fs₁ idx = pathBlocks fs path) (hsizes : (fs₁.files idx).size = pathSize fs path)
    (hfiles : ∀ i, i ≠ idx → fs₁.files i = fs.files i) (hpos : 0 < size)
    (hfit : size + blockSize - 1 ≤ intMax) (hfree : HasFreeBlock fs₁) :
    AllOrNothing fs path size (writeFile fs₁ idx (padded src size) size
      ((wrapInt (size + blockSize - 1)).tdiv blockSize) (findFreeBlock fs₁)) := by
  obtain ⟨hidx, hu, -⟩ := findFile_eq_some hfind
  obtain ⟨hfirst, hfat⟩ := findFreeBlock_spec (findFreeBlock_nonneg_iff.mpr hfree)
  obtain ⟨htotal, hneed⟩ := totalBlocks_spec hpos hfit
  obtain ⟨n, l, hret, hn, hle, ha⟩ :=
    writeFile_appended h hidx hu (size_le_padded src size) hfirst hfat htotal hneed
  have hold := h.chain idx hidx hu
  have hl : ∀ b ∈ fileBlocks fs₁ idx ++ l, b ∈ blockIndices := fun b hb =>
    (List.mem_append.mp hb).elim (hold.2 b) fun hb => (ha.free b hb).1
  refine Or.inr ⟨n, hret, hn, by omega, idx, l, ?_, ?_, ?_, ?_, fun i hi => ?_⟩
  · rw [ha.findFile_eq, hfind]
  · rintro rfl
    have := ha.le_length (hle.trans (size_le_padded src size))
    simp at this
    omega
  · rw [fileBlocks_eq ha.chain hl, hblocks]
  · rw [ha.entry, ← hsizes]
  · rw [ha.files i hi, hfiles i hi]

/-- A new file is found again unless its path was cut. -/
theorem findFile_withFile {fs : FileSystem} {path : CString} {idx : ℕ} (hidx : idx < maxFiles)
    (hnone : findFile fs path = none) :
    findFile (withFile fs idx path) path = if path.length ≤ 63 then some idx else none := by
  have hother : ∀ i < maxFiles, i ≠ idx →
      ¬(((withFile fs idx path).files i).used = true ∧ ((withFile fs idx path).files i).path = path) := by
    intro i hi hne
    rw [withFile_of_ne fs path hne]
    exact findFile_eq_none.mp hnone i hi
  split_ifs with hlen
  · refine List.find?_range_eq_some.mpr ⟨?_, List.mem_range.mpr hidx, fun j hj => ?_⟩
    · rw [withFile_self]
      simpa using hlen
    · rw [Bool.not_eq_true', decide_eq_false_iff_not]
      exact hother j (hj.trans hidx) hj.ne
  · refine findFile_eq_none.mpr fun i hi => ?_
    by_cases hne : i = idx
    · rw [hne, withFile_self]
      rintro ⟨-, hcut⟩
      dsimp only at hcut
      rw [← hcut, List.length_take] at hlen
      omega
    · exact hother i hi hne

/-! ## The two kinds of write -/

theorem allOrNothing_existing {fs : FileSystem} (h : WellFormed fs) {path : CString}
    (src : List UInt8) {size : ℤ} (hpos : 0 < size) (hint : size ≤ intMax) {idx : ℕ}
    (hfind : findFile fs path = some idx) :
    AllOrNothing fs path size (fsWrite fs path (padded src size) size) ↔
      size + blockSize - 1 ≤ intMax ∨ ¬HasFreeBlock fs := by
  have hopen : openForWrite fs path = (fs, some idx) := by
    unfold openForWrite
    rw [hfind]
  rw [fsWrite_of_open _ hpos hopen]
  by_cases hfree : HasFreeBlock fs
  · have hnonneg := findFreeBlock_nonneg_iff.mpr hfree
    by_cases hfit : size + blockSize - 1 ≤ intMax
    · refine iff_of_true ?_ (Or.inl hfit)
      split_ifs with hlarge hfull
      · exact Or.inl rfl
      · exact Or.inl rfl
      · refine allOrNothing_writeFile h hfind ?_ ?_ (fun _ _ => rfl) hpos hfit hfree
        · rw [pathBlocks, hfind]
        · rw [pathSize, hfind]
    · have hneg := totalBlocks_neg hint (not_le.mp hfit)
      rw [if_neg (by omega), if_neg (not_lt.mpr hnonneg)]
      refine iff_of_false (not_allOrNothing_zero (writeFile_ret_zero _ _ _ _ hneg _)) ?_
      rintro (hle | hno)
      · exact hfit hle
      · exact hno hfree
  · have hneg : findFreeBlock fs < 0 := not_le.mp fun h0 => hfree (findFreeBlock_nonneg_iff.mp h0)
    refine iff_of_true ?_ (Or.inr hfree)
    split_ifs <;> exact Or.inl rfl

/-- A write that makes its file keeps what it made, so it must not fail any more. -/
theorem allOrNothing_created {fs : FileSystem} (h : WellFormed fs) {path : CString}
    (src : List UInt8) {size : ℤ} (hpos : 0 < size) (hint : size ≤ intMax) {idx : ℕ}
    (hidx : idx < maxFiles) (hu : (fs.files idx).used = false) (hnone : findFile fs path = none)
    (hopen : openForWrite fs path = (withFile fs idx path, findFile (withFile fs idx path) path)) :
    AllOrNothing fs path size (fsWrite fs path (padded src size) size) ↔
      path.length ≤ 63 ∧ size ≤ blockSize * blockCount ∧ HasFreeBlock fs := by
  rw [findFile_withFile hidx hnone] at hopen
  by_cases hlen : path.length ≤ 63
  · rw [if_pos hlen] at hopen
    have hfind := findFile_withFile hidx hnone
    rw [if_pos hlen] at hfind
    have hfreeIff : HasFreeBlock (withFile fs idx path) ↔ HasFreeBlock fs := Iff.rfl
    rw [fsWrite_of_open _ hpos hopen]
    by_cases hfit : size + blockSize - 1 ≤ intMax
    · have hrange := totalBlocks_le_iff hpos hfit
      by_cases hlarge : size ≤ blockSize * blockCount
      · rw [if_neg (not_lt.mpr (hrange.mpr hlarge))]
        by_cases hfree : HasFreeBlock fs
        · rw [if_neg (not_lt.mpr (findFreeBlock_nonneg_iff.mpr (hfreeIff.mpr hfree)))]
          have hwf := h.withFile hu path
          refine iff_of_true ?_ ⟨hlen, hlarge, hfree⟩
          refine allOrNothing_writeFile hwf hfind ?_ ?_ (fun i hi => withFile_of_ne fs path hi) hpos
            hfit (hfreeIff.mpr hfree)
          · rw [pathBlocks, hnone]
            have hchain := hwf.chain idx hidx (by rw [withFile_self])
            rw [withFile_self] at hchain
            exact hchain.1.unique (chain_nil.mpr rfl)
          · rw [pathSize, hnone, withFile_self]
        · rw [if_pos (not_le.mp fun h0 => hfree (hfreeIff.mp (findFreeBlock_nonneg_iff.mp h0)))]
          exact iff_of_false not_allOrNothing_left fun hc => hfree hc.2.2
      · rw [if_pos (not_le.mp fun hle => hlarge (hrange.mp hle))]
        exact iff_of_false not_allOrNothing_left fun hc => hlarge hc.2.1
    · have hneg := totalBlocks_neg hint (not_le.mp hfit)
      have hlarge : ¬size ≤ blockSize * blockCount := by
        intro hle
        have hb : (blockSize : ℤ) = 64 := rfl
        have hc : (blockCount : ℤ) = 64 := rfl
        have hm : intMax = 2147483647 := by decide
        rw [hb, hm] at hfit
        rw [hb, hc] at hle
        omega
      rw [if_neg (by omega)]
      refine iff_of_false ?_ fun hc => hlarge hc.2.1
      split_ifs
      · exact not_allOrNothing_left
      · exact not_allOrNothing_zero (writeFile_ret_zero _ _ _ _ hneg _)
  · rw [if_neg hlen] at hopen
    have hwrite : fsWrite fs path (padded src size) size = (withFile fs idx path, -1) := by
      rw [fsWrite, if_neg (not_le.mpr hpos), hopen]
    rw [hwrite]
    exact iff_of_false not_allOrNothing_left fun hc => hlen hc.1

/-- A write is all or nothing exactly when its size is not positive or it writes whole. -/
theorem fsWrite_allOrNothing_iff {fs : FileSystem} (h : WellFormed fs) (path : CString)
    (src : List UInt8) {size : ℤ} (hint : size ≤ intMax) :
    AllOrNothing fs path size (fsWrite fs path src size) ↔ size ≤ 0 ∨ WritesWhole fs path size := by
  rw [← fsWrite_padded]
  by_cases hpos : 0 < size
  · rw [or_iff_right (not_le.mpr hpos)]
    rcases openForWrite_cases fs path with
      ⟨idx, hfind, -⟩ | ⟨hnone, hsame, hfail⟩ | ⟨hnone, hcount, idx, hidx, hu, hall, hopen⟩
    · rw [allOrNothing_existing h src hpos hint hfind, WritesWhole, hfind]
    · have hwrite : fsWrite fs path (padded src size) size = (fs, -1) := by
        rw [fsWrite, if_neg (not_le.mpr hpos)]
        dsimp only
        rw [hfail, hsame]
      refine iff_of_true (Or.inl hwrite) ?_
      rw [WritesWhole, hnone]
      refine Or.inl ?_
      by_contra hmake
      obtain ⟨hcount, hunused⟩ := not_or.mp hmake
      obtain ⟨idx, hidx⟩ := Option.ne_none_iff_exists'.mp hunused
      -- the file was made, so the directory is not the old one
      have hmade : (openForWrite fs path).1 = withFile fs idx path := by
        rw [openForWrite, hnone]
        dsimp only
        rw [fsCreate, if_neg hcount, hnone, hidx]
        rfl
      have := congrArg FileSystem.fileCount (hsame.symm.trans hmade)
      simp only [withFile] at this
      omega
    · rw [allOrNothing_created h src hpos hint hidx hu hnone hopen, WritesWhole, hnone]
      refine (or_iff_right ?_).symm
      rintro (hfull | hunused)
      · omega
      · rw [findUnused_eq hidx hu hall] at hunused
        cases hunused
  · refine iff_of_true (Or.inl ?_) (Or.inl (not_lt.mp hpos))
    rw [fsWrite, if_pos (not_lt.mp hpos)]

/-- On an empty disk the file is made, and 4097 bytes do not fit : the file stays. -/
theorem fsWrite_leaves_file :
    (fsWrite emptyDisk "/logs/a".toList [] 4097).2 = -1 ∧
      (findFile (fsWrite emptyDisk "/logs/a".toList [] 4097).1 "/logs/a".toList).isSome = true ∧
      ¬AllOrNothing emptyDisk "/logs/a".toList 4097 (fsWrite emptyDisk "/logs/a".toList [] 4097) := by
  have hret : (fsWrite emptyDisk "/logs/a".toList [] 4097).2 = -1 := by decide +kernel
  have hfile : (findFile (fsWrite emptyDisk "/logs/a".toList [] 4097).1 "/logs/a".toList).isSome =
      true := by decide +kernel
  have hbefore : findFile emptyDisk "/logs/a".toList = none := by decide +kernel
  refine ⟨hret, hfile, ?_⟩
  rintro (he | ⟨n, hn, hone, -⟩)
  · rw [he, hbefore] at hfile
    cases hfile
  · rw [hret] at hn
    omega

/-- Two bytes go into a new file. -/
theorem fsWrite_allOrNothing_iff_emptyDisk :
    AllOrNothing emptyDisk "/logs/a".toList 2 (fsWrite emptyDisk "/logs/a".toList [1, 2] 2) := by
  have hnone : findFile emptyDisk "/logs/a".toList = none := by decide +kernel
  have hfree : HasFreeBlock emptyDisk := ⟨0, by decide, rfl⟩
  refine (fsWrite_allOrNothing_iff wellFormed_emptyDisk "/logs/a".toList [1, 2] (by decide)).mpr ?_
  right
  rw [WritesWhole, hnone]
  exact Or.inr ⟨by decide, by decide, hfree⟩

end FleetOS
