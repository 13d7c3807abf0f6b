import FleetOS.Counting
import FleetOS.FileAppend

/-!
# The file system stays well-formed

A file system is `Intact` if its chains are well-formed, no file is larger than its blocks, and
the used entries are counted. Every call keeps it, also one that fails or stores only a part of
the data (`intact_fsCreate`, `intact_fsWrite`, `intact_fsDelete`, `intact_fsCleanupProcess`).

Chains inside the table repeat no block, so the walks of `fs_read` and `fs_delete` end after at
most `BLOCK_COUNT` blocks, and so does the walk of `fs_write`, which takes place between the
loop that fills the blocks and the link to them (`Intact.walkEnds_filled`).
-/

namespace FleetOS

open LinkedChain

def usedCount (fs : FileSystem) : ℕ := (List.range maxFiles).countP fun i => (fs.files i).used

/-- The chains are well-formed, a block is free exactly when it is on none, the blocks of a file
have room for its bytes, and `file_count` counts the used entries. -/
structure Intact (fs : FileSystem) : Prop where
  wellFormed : WellFormed fs
  free_iff : ∀ b ∈ blockIndices, fs.fat b = -2 ↔
    ∀ i < maxFiles, (fs.files i).used = true → b ∉ fileBlocks fs i
  size_le : ∀ i < maxFiles, (fs.files i).used = true →
    (fs.files i).size ≤ blockSize * (fileBlocks fs i).length
  count : fs.fileCount = usedCount fs

theorem WellFormed.free_iff {fs : FileSystem} (h : WellFormed fs) {b : ℤ} (hb : b ∈ blockIndices) :
    fs.fat b = -2 ↔ ∀ i < maxFiles, (fs.files i).used = true → b ∉ fileBlocks fs i :=
  ⟨fun hfree _ hi hu hbi => h.not_free hi hu hbi hfree, h.free b hb⟩

theorem Intact.of_wellFormed {fs : FileSystem} (h : WellFormed fs)
    (hsize : ∀ i < maxFiles, (fs.files i).used = true →
      (fs.files i).size ≤ blockSize * (fileBlocks fs i).length)
    (hcount : fs.fileCount = usedCount fs) : Intact fs :=
  ⟨h, fun _ hb => h.free_iff hb, hsize, hcount⟩

/-- A file that is left alone still fits its blocks. -/
theorem Intact.size_le_of_same {fs fs' : FileSystem} (h : Intact fs) {i : ℕ} (hi : i < maxFiles)
    (hu : (fs.files i).used = true) (hsame : SameFile fs fs' i) :
    (fs'.files i).size ≤ blockSize * (fileBlocks fs' i).length := by
  rw [hsame.fileBlocks_eq h.wellFormed.chains hi hu, hsame.entry]
  exact h.size_le i hi hu

/-- Writing one entry changes the count of the used entries by that entry. -/
theorem usedCount_change {fs fs' : FileSystem} {idx : ℕ} (hidx : idx < maxFiles)
    (h : ∀ i, i ≠ idx → fs'.files i = fs.files i) :
    usedCount fs' + (if (fs.files idx).used = true then 1 else 0) =
      usedCount fs + (if (fs'.files idx).used = true then 1 else 0) := by
  have hfiles : fs'.files = Function.update fs.files idx (fs'.files idx) := by
    funext i
    by_cases hi : i = idx
    · rw [hi, Function.update_self]
    · rw [Function.update_of_ne hi, h i hi]
  have := Counting.countP_update (fun f : FileEntry => f.used) fs.files (fs'.files idx)
    List.nodup_range (List.mem_range.mpr hidx)
  rw [← hfiles] at this
  exact this

/-! ## Making and deleting a file -/

theorem Intact.withFile {fs : FileSystem} (h : Intact fs) {idx : ℕ} (hidx : idx < maxFiles)
    (hu : (fs.files idx).used = false) (path : CString) : Intact (withFile fs idx path) := by
  have hself := withFile_self fs idx path
  refine .of_wellFormed (h.wellFormed.withFile hu path) (fun i hi hiu => ?_) ?_
  · by_cases hii : i = idx
    · rw [hii, hself]
      exact Nat.zero_le _
    · rw [withFile_of_ne fs path hii] at hiu
      exact h.size_le_of_same hi hiu (sameFile_withFile fs path hii)
  · have hcount := usedCount_change hidx fun i hi => withFile_of_ne fs path hi
    rw [hu, hself, if_neg (by decide), if_pos rfl] at hcount
    have hfc : (FleetOS.withFile fs idx path).fileCount = fs.fileCount + 1 := rfl
    have := h.count
    omega

theorem intact_fsCreate {fs : FileSystem} (h : Intact fs) (path : CString) :
    Intact (fsCreate fs path).1 := by
  rcases fsCreate_cases fs path with he | ⟨-, -, idx, hidx, hu, -, he⟩
  · rw [he]
    exact h
  · rw [he]
    exact h.withFile hidx hu path

theorem intact_openForWrite {fs : FileSystem} (h : Intact fs) (path : CString) :
    Intact (openForWrite fs path).1 := by
  rcases openForWrite_cases fs path with ⟨idx, -, he⟩ | ⟨-, he, -⟩ | ⟨-, -, idx, hidx, hu, -, he⟩
  · rw [he]
    exact h
  · rw [he]
    exact h
  · rw [he]
    exact h.withFile hidx hu path

theorem fileCount_freeBlocks : ∀ (fuel : ℕ) (blk : ℤ) (fs : FileSystem),
    (freeBlocks fuel blk fs).fileCount = fs.fileCount
  | 0, _, _ => rfl
  | fuel + 1, blk, fs => by
    rw [freeBlocks]
    split_ifs
    · rfl
    · exact fileCount_freeBlocks fuel _ _

theorem intact_fsDelete {fs : FileSystem} (h : Intact fs) (path : CString) :
    Intact (fsDelete fs path).1 := by
  rcases fsDelete_cases h.wellFormed.chains path with ⟨-, he⟩ | ⟨idx, hf, -, hr⟩
  · rw [he]
    exact h
  · obtain ⟨hidx, hu, -⟩ := findFile_eq_some hf
    have hfc : (fsDelete fs path).1.fileCount = fs.fileCount - 1 := by
      simp only [fsDelete, hf]
      exact congrArg (· - 1) (fileCount_freeBlocks blockCount _ fs)
    refine .of_wellFormed (hr.wellFormed h.wellFormed hidx hu) (fun i hi hiu => ?_) ?_
    · have hii : i ≠ idx := by
        rintro rfl
        rw [hr.unused] at hiu
        cases hiu
      rw [hr.files i hii] at hiu
      exact h.size_le_of_same hi hiu (hr.sameFile h.wellFormed.chains hidx hu hi hiu hii)
    · have hcount := usedCount_change hidx hr.files
      rw [hu, hr.unused, if_pos rfl, if_neg (by decide)] at hcount
      have := h.count
      omega

/-- What every delete keeps survives the clean-up. -/
theorem fsCleanupProcess_keeps {P : FileSystem → Prop}
    (hdelete : ∀ fs path, P fs → P (fsDelete fs path).1) {fs : FileSystem} (h : P fs) (pid : ℤ) :
    P (fsCleanupProcess fs pid) := by
  unfold fsCleanupProcess
  dsimp only
  generalize List.take 31 _ = stem
  refine List.foldlRecOn (motive := P) (List.range maxFiles) _ h fun fs' h' i _ => ?_
  split_ifs
  · exact hdelete fs' _ h'
  · exact h'

theorem intact_fsCleanupProcess {fs : FileSystem} (h : Intact fs) (pid : ℤ) :
    Intact (fsCleanupProcess fs pid) :=
  fsCleanupProcess_keeps (P := Intact) (fun _ path h => intact_fsDelete h path) h pid

/-! ## Writing -/

theorem copyToBlock_congr (fs : FileSystem) (blk : ℤ) {src src' : List UInt8} (chunk : ℕ)
    (h : ∀ o, src.getD o 0 = src'.getD o 0) :
    copyToBlock fs blk src chunk = copyToBlock fs blk src' chunk := by
  unfold copyToBlock
  simp only [h]

theorem getD_drop_congr {src src' : List UInt8} (h : ∀ o, src.getD o 0 = src'.getD o 0)
    (n o : ℕ) : (src.drop n).getD o 0 = (src'.drop n).getD o 0 := by
  simpa only [List.getD_eq_getElem?_getD, List.getElem?_drop] using h (n + o)

/-- The loop reads the source byte by byte. -/
theorem writeBlocks_congr {src src' : List UInt8} (h : ∀ o, src.getD o 0 = src'.getD o 0)
    (size : ℕ) : ∀ (rest : ℕ) (fs : FileSystem) (prev cur : ℤ) (written : ℕ),
      writeBlocks src size rest fs prev cur written = writeBlocks src' size rest fs prev cur written
  | 0, _, _, _, _ => rfl
  | rest + 1, fs, prev, cur, written => by
    rw [writeBlocks, writeBlocks]
    simp only [copyToBlock_congr _ _ _ (getD_drop_congr h written), writeBlocks_congr h size rest]

/-- The source as far as the call reads it. -/
def padded (src : List UInt8) (size : ℤ) : List UInt8 := src ++ List.replicate size.toNat 0

theorem getD_padded (src : List UInt8) (size : ℤ) (o : ℕ) :
    src.getD o 0 = (padded src size).getD o 0 := by
  unfold padded
  simp only [List.getD_eq_getElem?_getD, List.getElem?_append, List.getElem?_replicate]
  split_ifs with h1 h2
  · rfl
  · rw [List.getElem?_eq_none (not_lt.mp h1)]
    rfl
  · rw [List.getElem?_eq_none (not_lt.mp h1)]

theorem fsWrite_padded (fs : FileSystem) (path : CString) (src : List UInt8) (size : ℤ) :
    fsWrite fs path (padded src size) size = fsWrite fs path src size := by
  unfold fsWrite writeFile
  simp only [writeBlocks_congr (getD_padded src size)]

theorem size_le_padded (src : List UInt8) (size : ℤ) : size.toNat ≤ (padded src size).length := by
  simp [padded]

theorem fileCount_writeBlocks (src : List UInt8) (size : ℕ) :
    ∀ (rest : ℕ) (fs : FileSystem) (prev cur : ℤ) (written : ℕ),
      (writeBlocks src size rest fs prev cur written).1.fileCount = fs.fileCount
  | 0, _, _, _, _ => rfl
  | rest + 1, fs, prev, cur, written => by
    by_cases hlt : written < size
    · have hfill := (fillBlock_rest fs src prev cur written (min blockSize (size - written))).2.2
      rw [writeBlocks_succ src size rest fs prev cur hlt]
      dsimp only
      split_ifs
      · exact hfill
      · exact (fileCount_writeBlocks src size rest _ _ _ _).trans hfill
    · rw [writeBlocks, if_pos (not_lt.mp hlt)]

theorem fileCount_fsWrite (fs : FileSystem) (path : CString) (src : List UInt8) {size : ℤ}
    (hpos : 0 < size) : (fsWrite fs path src size).1.fileCount = (openForWrite fs path).1.fileCount := by
  rw [fsWrite, if_neg (not_le.mpr hpos)]
  dsimp only
  cases (openForWrite fs path).2 with
  | none => rfl
  | some idx =>
    dsimp only
    split_ifs
    · rfl
    · rfl
    · unfold writeFile
      dsimp only
      split_ifs <;> exact fileCount_writeBlocks src _ _ _ _ _ _

/-- The appended blocks have room for what was written. -/
theorem Appended.le_length {fs fs' : FileSystem} {idx : ℕ} {src : List UInt8} {n : ℕ} {l : List ℤ}
    (a : Appended fs fs' idx src n l) (hn : n ≤ src.length) : n ≤ blockSize * l.length := by
  have hlen := congrArg List.length a.bytes
  have hblocks : (l.flatMap (blockBytes fs')).length = blockSize * l.length := by
    rw [List.length_flatMap]
    simp [mul_comm]
  rw [List.length_take, List.length_take, hblocks] at hlen
  omega

theorem Appended.intact {fs fs' : FileSystem} {idx : ℕ} {src : List UInt8} {n : ℕ} {l : List ℤ}
    (a : Appended fs fs' idx src n l) (h : Intact fs) (hidx : idx < maxFiles)
    (hu : (fs.files idx).used = true) (hn : n ≤ src.length) (hcount : fs'.fileCount = fs.fileCount) :
    Intact fs' := by
  refine .of_wellFormed (a.wellFormed h.wellFormed hidx hu) (fun i hi hiu => ?_) ?_
  · rw [(a.used i).1] at hiu
    by_cases hii : i = idx
    · have hl : ∀ b ∈ fileBlocks fs idx ++ l, b ∈ blockIndices := fun b hb =>
        (List.mem_append.mp hb).elim ((h.wellFormed.chain idx hidx hu).2 b) fun hb => (a.free b hb).1
      have hsize : (fs'.files idx).size = (fs.files idx).size + n := by rw [a.entry]
      have hold := h.size_le idx hidx hu
      have hnew := a.le_length hn
      rw [hii, fileBlocks_eq a.chain hl, hsize, List.length_append, mul_add]
      omega
    · exact h.size_le_of_same hi hiu (a.sameFile h.wellFormed hidx hu hi hiu hii)
  · have hused : usedCount fs' = usedCount fs := by
      unfold usedCount
      simp only [(a.used _).1]
    rw [hused, hcount]
    exact h.count

/-- A write fails, or stores all of the data or a part of it. -/
theorem intact_fsWrite {fs : FileSystem} (h : Intact fs) (path : CString) (src : List UInt8)
    {size : ℤ} (hsize : size ≤ intMax - blockSize) : Intact (fsWrite fs path src size).1 := by
  by_cases hpos : 0 < size
  · have hopen := intact_openForWrite h path
    have hcount := fileCount_fsWrite fs path (padded src size) hpos
    have hsrc := size_le_padded src size
    rw [← fsWrite_padded]
    rcases fsWrite_cases h.wellFormed path hpos (by omega) hsrc with
      he | ⟨idx, n, l, hidx, -, -, hn, ha⟩
    · rw [he]
      exact hopen
    · obtain ⟨hlt, hu, -⟩ := findFile_eq_some (openForWrite_some hidx)
      exact ha.intact hopen hlt hu (hn.trans hsrc) hcount
  · have he : fsWrite fs path src size = (fs, -1) := if_pos (not_lt.mp hpos)
    rw [he]
    exact h

/-! ## The walks along the chains -/

/-- From `blk` the table leads to `-1` in at most `BLOCK_COUNT` blocks. -/
def WalkEnds (fs : FileSystem) (blk : ℤ) : Prop :=
  ∃ l, Chain fs.fat (-1) blk l ∧ l.length ≤ blockCount

theorem Intact.walkEnds {fs : FileSystem} (h : Intact fs) {idx : ℕ} (hidx : idx < maxFiles)
    (hu : (fs.files idx).used = true) : WalkEnds fs (fs.files idx).firstBlock := by
  obtain ⟨hc, hl⟩ := h.wellFormed.chain idx hidx hu
  exact ⟨fileBlocks fs idx, hc, length_chain_le hc hl⟩

/-- The table that `fs_write` walks along, when the loop that fills the blocks is done. -/
def filledBlocks (fs : FileSystem) (src : List UInt8) (size : ℤ) : FileSystem :=
  (writeBlocks src size.toNat ((wrapInt (size + blockSize - 1)).tdiv blockSize).toNat fs (-1)
    (findFreeBlock fs) 0).1

theorem Intact.walkEnds_filled {fs : FileSystem} (h : Intact fs) {idx : ℕ} (hidx : idx < maxFiles)
    (hu : (fs.files idx).used = true) (src : List UInt8) {size : ℤ} (hpos : 0 < size)
    (hsize : size ≤ intMax - blockSize) (hfirst : 0 ≤ findFreeBlock fs) :
    WalkEnds (filledBlocks fs src size) ((filledBlocks fs src size).files idx).firstBlock := by
  obtain ⟨hmem, hfree⟩ := findFreeBlock_spec hfirst
  obtain ⟨htotal, hneed⟩ := totalBlocks_spec hpos (by omega)
  obtain ⟨l, hf⟩ := writeBlocks_first (size_le_padded src size) hmem hfree htotal hneed
  have hchain := (hf.chain_kept h.wellFormed hidx hu).2
  rw [← writeBlocks_congr (getD_padded src size)] at hchain
  exact ⟨fileBlocks fs idx, hchain, length_chain_le hchain (h.wellFormed.chain idx hidx hu).2⟩

/-- The loop of a delete stops at the end of the chain, however much fuel there is. -/
theorem freeBlocks_fuel {l : List ℤ} :
    ∀ {fuel fuel' : ℕ} {blk : ℤ} {fs : FileSystem}, Chain fs.fat (-1) blk l → l.length ≤ fuel →
      l.length ≤ fuel' → freeBlocks fuel blk fs = freeBlocks fuel' blk fs := by
  have hend : ∀ (fuel : ℕ) (fs : FileSystem), freeBlocks fuel (-1) fs = fs := by
    intro fuel fs
    cases fuel with
    | zero => rfl
    | succ fuel => exact if_pos rfl
  induction l with
  | nil =>
    intro fuel fuel' blk fs h _ _
    rw [chain_nil.mp h, hend, hend]
  | cons c l ih =>
    intro fuel fuel' blk fs h hf hf'
    obtain ⟨fuel, rfl⟩ : ∃ f, fuel = f + 1 := ⟨fuel - 1, by simp at hf; omega⟩
    obtain ⟨fuel', rfl⟩ : ∃ f, fuel' = f + 1 := ⟨fuel' - 1, by simp at hf'; omega⟩
    have hnd := h.nodup
    obtain ⟨rfl, hb, h⟩ := h
    have hrest : Chain (Function.update fs.fat blk (-2)) (-1) (fs.fat blk) l := by
      refine h.congr fun x hx => Function.update_of_ne ?_ _ _
      rintro rfl
      exact (List.nodup_cons.mp hnd).1 hx
    rw [freeBlocks, freeBlocks, if_neg hb, if_neg hb]
    exact ih hrest (by simpa using hf) (by simpa using hf')

/-- The loops that walk along a chain stop at its end : more fuel than the number of blocks
changes nothing. -/
structure WalkStops (fs : FileSystem) (blk : ℤ) (fuel : ℕ) : Prop where
  read : ∀ fileSize size,
    readBlocks fs fileSize size fuel blk [] = readBlocks fs fileSize size blockCount blk []
  delete : freeBlocks fuel blk fs = freeBlocks blockCount blk fs
  last : blk ≠ -1 → lastNode fs.fat (-1) fuel blk = lastBlock fs blk

theorem WalkEnds.stops {fs : FileSystem} {blk : ℤ} (h : WalkEnds fs blk) {fuel : ℕ}
    (hfuel : blockCount ≤ fuel) : WalkStops fs blk fuel := by
  obtain ⟨l, hc, hl⟩ := h
  refine ⟨fun fileSize size => ?_, freeBlocks_fuel hc (hl.trans hfuel) hl, fun hne => ?_⟩
  · rw [readBlocks_eq hc (hl.trans hfuel), readBlocks_eq hc hl]
  · have hnil : l ≠ [] := by
      rintro rfl
      exact hne (chain_nil.mp hc)
    exact (hc.lastNode_eq hnil (hl.trans hfuel)).trans (hc.lastNode_eq hnil hl).symm

/-- Every call takes an intact file system to an intact one, whether it succeeds or fails, and the
walks of reading, deleting and writing a file end after at most `BLOCK_COUNT` blocks. -/
theorem intact_fsCalls {fs : FileSystem} (h : Intact fs) :
    (∀ path, Intact (fsCreate fs path).1) ∧
    (∀ path src size, 0 < size → size ≤ intMax - blockSize → Intact (fsWrite fs path src size).1) ∧
    (∀ path, Intact (fsDelete fs path).1) ∧
    (∀ pid, Intact (fsCleanupProcess fs pid)) ∧
    (∀ path idx, findFile fs path = some idx → WalkEnds fs (fs.files idx).firstBlock ∧
      ∀ fuel, blockCount ≤ fuel → WalkStops fs (fs.files idx).firstBlock fuel) ∧
    ∀ path src size idx, 0 < size → size ≤ intMax - blockSize →
      (openForWrite fs path).2 = some idx → 0 ≤ findFreeBlock (openForWrite fs path).1 →
      let fs₁ := filledBlocks (openForWrite fs path).1 src size
      WalkEnds fs₁ (fs₁.files idx).firstBlock ∧
        ∀ fuel, blockCount ≤ fuel → WalkStops fs₁ (fs₁.files idx).firstBlock fuel := by
  refine ⟨intact_fsCreate h, fun path src size _ hsize => intact_fsWrite h path src hsize,
    intact_fsDelete h, intact_fsCleanupProcess h, fun path idx hf => ?_,
    fun path src size idx hpos hsize hf hfirst => ?_⟩
  · obtain ⟨hidx, hu, -⟩ := findFile_eq_some hf
    have hends := h.walkEnds hidx hu
    exact ⟨hends, fun fuel hfuel => hends.stops hfuel⟩
  · obtain ⟨hidx, hu, -⟩ := findFile_eq_some (openForWrite_some hf)
    have hends := (intact_openForWrite h path).walkEnds_filled hidx hu src hpos hsize hfirst
    exact ⟨hends, fun fuel hfuel => hends.stops hfuel⟩

theorem intact_emptyDisk : Intact emptyDisk :=
  .of_wellFormed wellFormed_emptyDisk (fun i _ hu => by cases hu) (by decide)

/-- Two bytes are written, and the file is deleted again. -/
theorem intact_fsCalls_emptyDisk :
    let fs := (fsWrite emptyDisk "/logs/a".toList [1, 2] 2).1
    Intact (fsDelete fs "/logs/a".toList).1 ∧ fs.fileCount = 1 := by
  intro fs
  have hfs : Intact fs :=
    (intact_fsCalls intact_emptyDisk).2.1 "/logs/a".toList [1, 2] 2 (by decide) (by decide)
  exact ⟨(intact_fsCalls hfs).2.2.1 "/logs/a".toList, by decide +kernel⟩

end FleetOS
