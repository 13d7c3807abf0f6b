import FleetOS.FileCapacity

/-!
# The chains of the files

A file system is `WellFormed` if the used files have chains of blocks that end and are pairwise
disjoint, and every other block is free. Reading a file gives the bytes of its chain up to its
size (`fsRead_eq`).

Each operation has one lemma for what it does to the chains : `opened` for making a file,
`fsWrite_cases` for a write, which appends a chain of free blocks to one file (`Appended`) or
fails, and `fsDelete_cases` for the release of a chain. Well-formedness follows from a list of
blocks for every file (`WellFormed.of_chains`).
-/

namespace FleetOS

open LinkedChain

/-- The bytes of a file. -/
def fileContents (fs : FileSystem) (idx : ℕ) : List UInt8 :=
  ((fileBlocks fs idx).flatMap (blockBytes fs)).take (fs.files idx).size

/-- Table entries are free, an end or a block, the chains of the used files end and are pairwise
disjoint, and all other blocks are free. -/
structure WellFormed (fs : FileSystem) : Prop where
  entry : ∀ b ∈ blockIndices, fs.fat b = -2 ∨ fs.fat b = -1 ∨ fs.fat b ∈ blockIndices
  chain : ∀ i < maxFiles, (fs.files i).used = true →
    Chain fs.fat (-1) (fs.files i).firstBlock (fileBlocks fs i) ∧
      ∀ b ∈ fileBlocks fs i, b ∈ blockIndices
  disjoint : ∀ i < maxFiles, ∀ j < maxFiles, (fs.files i).used = true → (fs.files j).used = true →
    i ≠ j → ∀ b ∈ fileBlocks fs i, b ∉ fileBlocks fs j
  free : ∀ b ∈ blockIndices,
    (∀ i < maxFiles, (fs.files i).used = true → b ∉ fileBlocks fs i) → fs.fat b = -2

/-- The chains of the used files end inside the table and share no block. -/
structure DisjointChains (fs : FileSystem) : Prop where
  chain : ∀ i < maxFiles, (fs.files i).used = true →
    Chain fs.fat (-1) (fs.files i).firstBlock (fileBlocks fs i) ∧
      ∀ b ∈ fileBlocks fs i, b ∈ blockIndices
  disjoint : ∀ i < maxFiles, ∀ j < maxFiles, (fs.files i).used = true → (fs.files j).used = true →
    i ≠ j → ∀ b ∈ fileBlocks fs i, b ∉ fileBlocks fs j

theorem WellFormed.chains {fs : FileSystem} (h : WellFormed fs) : DisjointChains fs :=
  ⟨h.chain, h.disjoint⟩

/-! ## Blocks -/

theorem mem_blockIndices {b : ℤ} : b ∈ blockIndices ↔ 0 ≤ b ∧ b < blockCount := by
  simp only [blockIndices, List.mem_map, List.mem_range]
  constructor
  · rintro ⟨i, hi, rfl⟩
    omega
  · rintro ⟨h0, h1⟩
    exact ⟨b.toNat, by omega, by omega⟩

theorem ne_neg_of_mem {b : ℤ} (hb : b ∈ blockIndices) : b ≠ -1 := by
  have := (mem_blockIndices.mp hb).1
  omega

@[simp] theorem length_blockBytes (fs : FileSystem) (blk : ℤ) :
    (blockBytes fs blk).length = blockSize := by
  simp [blockBytes]

/-- A chain inside the table is no longer than the table. -/
theorem length_chain_le {fs : FileSystem} {a : ℤ} {l : List ℤ} (h : Chain fs.fat (-1) a l)
    (hl : ∀ b ∈ l, b ∈ blockIndices) : l.length ≤ blockCount := by
  have hle := h.length_le fun b hb => List.mem_toFinset.mpr (hl b hb)
  have hcard : blockIndices.toFinset.card ≤ blockCount := by
    simpa [blockIndices] using blockIndices.toFinset_card_le
  exact hle.trans hcard

theorem fileBlocks_eq {fs : FileSystem} {idx : ℕ} {l : List ℤ}
    (h : Chain fs.fat (-1) (fs.files idx).firstBlock l) (hl : ∀ b ∈ l, b ∈ blockIndices) :
    fileBlocks fs idx = l :=
  h.nodes_eq (length_chain_le h hl)

theorem chain_next_mem {next : ℤ → ℤ} {a : ℤ} {l : List ℤ} (h : Chain next (-1) a l) :
    ∀ b ∈ l, next b = -1 ∨ next b ∈ l := by
  induction l generalizing a with
  | nil => exact fun b hb => absurd hb List.not_mem_nil
  | cons c l ih =>
    obtain ⟨rfl, -, h⟩ := h
    intro b hb
    rcases List.mem_cons.mp hb with rfl | hb
    · cases l with
      | nil => exact Or.inl h
      | cons d l => exact Or.inr (h.1 ▸ List.mem_cons_of_mem b List.mem_cons_self)
    · exact (ih h b hb).imp_right (List.mem_cons_of_mem a)

/-- A list of blocks for every used file makes a file system well-formed. -/
theorem WellFormed.of_chains {fs : FileSystem} (blocks : ℕ → List ℤ)
    (hchain : ∀ i < maxFiles, (fs.files i).used = true →
      Chain fs.fat (-1) (fs.files i).firstBlock (blocks i) ∧ ∀ b ∈ blocks i, b ∈ blockIndices)
    (hdisj : ∀ i < maxFiles, ∀ j < maxFiles, (fs.files i).used = true → (fs.files j).used = true →
      i ≠ j → ∀ b ∈ blocks i, b ∉ blocks j)
    (hfree : ∀ b ∈ blockIndices,
      (∀ i < maxFiles, (fs.files i).used = true → b ∉ blocks i) → fs.fat b = -2) :
    WellFormed fs := by
  have hblocks : ∀ i < maxFiles, (fs.files i).used = true → fileBlocks fs i = blocks i :=
    fun i hi hu => fileBlocks_eq (hchain i hi hu).1 (hchain i hi hu).2
  refine ⟨fun b hb => ?_, fun i hi hu => ?_, fun i hi j hj hu hu' hij => ?_, fun b hb h => ?_⟩
  · by_cases hon : ∃ i < maxFiles, (fs.files i).used = true ∧ b ∈ blocks i
    · obtain ⟨i, hi, hu, hbi⟩ := hon
      exact Or.inr ((chain_next_mem (hchain i hi hu).1 b hbi).imp_right ((hchain i hi hu).2 _))
    · push Not at hon
      exact Or.inl (hfree b hb hon)
  · rw [hblocks i hi hu]
    exact hchain i hi hu
  · rw [hblocks i hi hu, hblocks j hj hu']
    exact hdisj i hi j hj hu hu' hij
  · exact hfree b hb fun i hi hu hbi => h i hi hu (hblocks i hi hu ▸ hbi)

/-- A block on a chain is not free. -/
theorem WellFormed.not_free {fs : FileSystem} (h : WellFormed fs) {i : ℕ} (hi : i < maxFiles)
    (hu : (fs.files i).used = true) {b : ℤ} (hb : b ∈ fileBlocks fs i) : fs.fat b ≠ -2 := by
  obtain ⟨hc, hl⟩ := h.chain i hi hu
  rcases chain_next_mem hc b hb with he | he
  · omega
  · have := (mem_blockIndices.mp (hl _ he)).1
    omega

theorem findFreeBlock_spec {fs : FileSystem} (h : 0 ≤ findFreeBlock fs) :
    findFreeBlock fs ∈ blockIndices ∧ fs.fat (findFreeBlock fs) = -2 := by
  unfold findFreeBlock at h ⊢
  cases hf : blockIndices.find? fun i => decide (fs.fat i = -2) with
  | none =>
    rw [hf] at h
    exact absurd h (by decide)
  | some b => exact ⟨List.mem_of_find?_eq_some hf, by simpa using List.find?_some hf⟩

/-! ## Looking a file up -/

theorem findFile_congr {fs fs' : FileSystem} {path : CString}
    (h : ∀ i < maxFiles, ((fs'.files i).used = true ∧ (fs'.files i).path = path) ↔
      ((fs.files i).used = true ∧ (fs.files i).path = path)) :
    findFile fs' path = findFile fs path := by
  unfold findFile
  refine List.find?_congr fun i hi => ?_
  simpa only [decide_eq_decide] using h i (List.mem_range.mp hi)

theorem findFile_eq_none {fs : FileSystem} {path : CString} :
    findFile fs path = none ↔ ∀ i < maxFiles, ¬((fs.files i).used = true ∧ (fs.files i).path = path) := by
  simp [findFile, List.find?_eq_none]

/-- The same file in two file systems : its entry, its chain and its bytes agree. -/
structure SameFile (fs fs' : FileSystem) (i : ℕ) : Prop where
  entry : fs'.files i = fs.files i
  fat : ∀ b ∈ fileBlocks fs i, fs'.fat b = fs.fat b
  data : ∀ b ∈ fileBlocks fs i, fs'.data b = fs.data b

theorem SameFile.chain {fs fs' : FileSystem} {i : ℕ} (h : SameFile fs fs' i)
    (hc : Chain fs.fat (-1) (fs.files i).firstBlock (fileBlocks fs i)) :
    Chain fs'.fat (-1) (fs'.files i).firstBlock (fileBlocks fs i) := by
  rw [h.entry]
  exact hc.congr h.fat

theorem SameFile.fileBlocks_eq {fs fs' : FileSystem} {i : ℕ} (h : SameFile fs fs' i)
    (hd : DisjointChains fs) (hi : i < maxFiles) (hu : (fs.files i).used = true) :
    fileBlocks fs' i = fileBlocks fs i :=
  FleetOS.fileBlocks_eq (h.chain (hd.chain i hi hu).1) (hd.chain i hi hu).2

theorem SameFile.trans {fs fs' fs'' : FileSystem} {i : ℕ} (h : SameFile fs fs' i)
    (h' : SameFile fs' fs'' i) (hd : DisjointChains fs) (hi : i < maxFiles)
    (hu : (fs.files i).used = true) : SameFile fs fs'' i := by
  have hb := h.fileBlocks_eq hd hi hu
  refine ⟨h'.entry.trans h.entry, fun b hbi => ?_, fun b hbi => ?_⟩
  · exact (h'.fat b (hb.symm ▸ hbi)).trans (h.fat b hbi)
  · exact (h'.data b (hb.symm ▸ hbi)).trans (h.data b hbi)

theorem SameFile.fileContents_eq {fs fs' : FileSystem} {i : ℕ} (h : SameFile fs fs' i)
    (hd : DisjointChains fs) (hi : i < maxFiles) (hu : (fs.files i).used = true) :
    fileContents fs' i = fileContents fs i := by
  unfold fileContents
  rw [h.fileBlocks_eq hd hi hu, h.entry]
  congr 1
  refine List.flatMap_congr fun b hb => ?_
  unfold blockBytes
  rw [h.data b hb]

/-! ## Reading -/

theorem readBlocks_eq {fs : FileSystem} {fileSize size : ℕ} :
    ∀ {l : List ℤ} {fuel : ℕ} {blk : ℤ} {buf : List UInt8}, Chain fs.fat (-1) blk l →
      l.length ≤ fuel → readBlocks fs fileSize size fuel blk buf =
        buf ++ (l.flatMap (blockBytes fs)).take (min (size - buf.length) (fileSize - buf.length))
  | [], 0, _, buf, _, _ => by simp [readBlocks]
  | [], fuel + 1, _, buf, h, _ => by
    rw [readBlocks, if_pos (Or.inl (chain_nil.mp h))]
    simp
  | b :: l, fuel + 1, blk, buf, h, hf => by
    obtain ⟨rfl, hb, h⟩ := h
    rw [readBlocks]
    by_cases hn : size ≤ buf.length
    · rw [if_pos (Or.inr hn), Nat.sub_eq_zero_of_le hn]
      simp
    · have hor : ¬(blk = -1 ∨ size ≤ buf.length) := not_or.mpr ⟨hb, hn⟩
      rw [if_neg hor]
      dsimp only
      rw [readBlocks_eq h (by simpa using hf), List.flatMap_cons, List.take_append,
        List.append_assoc]
      have hlen : (buf ++ (blockBytes fs blk).take
          (min (min (size - buf.length) blockSize) (fileSize - buf.length))).length =
            buf.length + min (min (size - buf.length) blockSize) (fileSize - buf.length) := by
        simp [blockSize]
      rw [hlen, length_blockBytes]
      congr 1
      congr 1
      · -- a chunk cut to the block is the block cut to what is wanted
        rw [List.take_eq_take_iff, length_blockBytes]
        omega
      · congr 1
        omega

/-- Reading gives the bytes of the file, up to the number asked for. -/
theorem fsRead_eq {fs : FileSystem} (hd : DisjointChains fs) {path : CString} {i : ℕ}
    (hf : findFile fs path = some i) {n : ℤ} (hn : 0 < n) :
    fsRead fs path n =
      ((((fileContents fs i).take n.toNat).length : ℤ), (fileContents fs i).take n.toNat) := by
  obtain ⟨hi, hu, -⟩ := findFile_eq_some hf
  obtain ⟨hc, hl⟩ := hd.chain i hi hu
  have hbuf : readBlocks fs (fs.files i).size n.toNat blockCount (fs.files i).firstBlock [] =
      (fileContents fs i).take n.toNat := by
    rw [readBlocks_eq hc (length_chain_le hc hl)]
    simp [fileContents, List.take_take]
  simp only [fsRead, not_le.mpr hn, if_false, hf, hbuf]

/-- A path reads as before if it names the same file, and that file is as before. -/
theorem fsRead_congr {fs fs' : FileSystem} (hd : DisjointChains fs) (hd' : DisjointChains fs')
    {path : CString} (hfind : findFile fs' path = findFile fs path)
    (hsame : ∀ i, findFile fs path = some i → SameFile fs fs' i) (n : ℤ) :
    fsRead fs' path n = fsRead fs path n := by
  by_cases hn : 0 < n
  · cases hf : findFile fs path with
    | none =>
      rw [hf] at hfind
      simp only [fsRead, hfind, hf]
    | some i =>
      rw [hf] at hfind
      obtain ⟨hi, hu, -⟩ := findFile_eq_some hf
      rw [fsRead_eq hd' hfind hn, fsRead_eq hd hf hn, (hsame i hf).fileContents_eq hd hi hu]
  · simp only [fsRead, not_lt.mp hn, if_true]

theorem setFile_self (fs : FileSystem) (idx : ℕ) (f : FileEntry → FileEntry) :
    (setFile fs idx f).files idx = f (fs.files idx) :=
  Function.update_self _ _ _

theorem setFile_of_ne (fs : FileSystem) {idx i : ℕ} (h : i ≠ idx) (f : FileEntry → FileEntry) :
    (setFile fs idx f).files i = fs.files i :=
  Function.update_of_ne h _ _

/-! ## Making a file -/

/-- The file system with a new file of no blocks in entry `idx`. -/
def withFile (fs : FileSystem) (idx : ℕ) (path : CString) : FileSystem :=
  { setFile fs idx fun _ => ⟨path.take 63, -1, 0, true⟩ with fileCount := fs.fileCount + 1 }

/-- Everything `fs_create` can do. -/
theorem fsCreate_cases (fs : FileSystem) (path : CString) :
    (fsCreate fs path).1 = fs ∨
      (fs.fileCount < maxFiles ∧ findFile fs path = none ∧ ∃ idx < maxFiles,
        (fs.files idx).used = false ∧ (∀ j < idx, (fs.files j).used = true) ∧
          fsCreate fs path = (withFile fs idx path, 0)) := by
  unfold fsCreate
  split_ifs with hfull hfound
  · exact Or.inl rfl
  · exact Or.inl rfl
  · cases hidx : findUnused fs with
    | none => exact Or.inl rfl
    | some idx =>
      obtain ⟨hu, hlt, hall⟩ := List.find?_range_eq_some.mp hidx
      refine Or.inr ⟨not_le.mp hfull, by simpa using hfound, idx, List.mem_range.mp hlt,
        by simpa using hu, fun j hj => by simpa using hall j hj, rfl⟩

theorem withFile_of_ne (fs : FileSystem) {idx i : ℕ} (path : CString) (h : i ≠ idx) :
    (withFile fs idx path).files i = fs.files i :=
  Function.update_of_ne h _ _

theorem withFile_self (fs : FileSystem) (idx : ℕ) (path : CString) :
    (withFile fs idx path).files idx = ⟨path.take 63, -1, 0, true⟩ :=
  Function.update_self _ _ _

theorem sameFile_withFile (fs : FileSystem) {idx i : ℕ} (path : CString) (h : i ≠ idx) :
    SameFile fs (withFile fs idx path) i :=
  ⟨withFile_of_ne fs path h, fun _ _ => rfl, fun _ _ => rfl⟩

theorem WellFormed.withFile {fs : FileSystem} (h : WellFormed fs) {idx : ℕ}
    (hu : (fs.files idx).used = false) (path : CString) : WellFormed (withFile fs idx path) := by
  have hother : ∀ i, i ≠ idx → (FleetOS.withFile fs idx path).files i = fs.files i :=
    fun i hi => withFile_of_ne fs path hi
  have hself := withFile_self fs idx path
  refine .of_chains (fun i => if i = idx then [] else fileBlocks fs i) (fun i hi hiu => ?_)
    (fun i hi j hj hiu hju hij b hb => ?_) fun b hb hno => ?_
  · by_cases hii : i = idx
    · rw [if_pos hii, hii, hself]
      exact ⟨rfl, fun b hb => absurd hb List.not_mem_nil⟩
    · rw [if_neg hii]
      rw [hother i hii] at hiu ⊢
      exact h.chain i hi hiu
  · by_cases hii : i = idx
    · rw [if_pos hii] at hb
      exact absurd hb List.not_mem_nil
    · rw [if_neg hii] at hb
      rw [hother i hii] at hiu
      by_cases hjj : j = idx
      · rw [if_pos hjj]
        exact List.not_mem_nil
      · rw [if_neg hjj]
        rw [hother j hjj] at hju
        exact h.disjoint i hi j hj hiu hju hij b hb
  · refine h.free b hb fun i hi hiu hbi => ?_
    have hii : i ≠ idx := by
      rintro rfl
      rw [hu] at hiu
      cases hiu
    refine hno i hi (by rw [hother i hii]; exact hiu) ?_
    rw [if_neg hii]
    exact hbi

/-! ## Writing -/

/-- What the loop of `fs_write` does from block `cur` on : it fills and links the blocks `l`. -/
structure Filled (fs fs' : FileSystem) (src : List UInt8) (size : ℕ) (prev cur : ℤ)
    (written written' : ℕ) (l : List ℤ) : Prop where
  chain : Chain fs'.fat (-1) cur l
  free : ∀ b ∈ l, b ∈ blockIndices ∧ fs.fat b = -2
  fat : ∀ b ∉ l, fs'.fat b = if b = prev ∧ 0 ≤ prev then cur else fs.fat b
  data : ∀ b ∉ l, fs'.data b = fs.data b
  files : fs'.files = fs.files
  fileCount : fs'.fileCount = fs.fileCount
  lt : written < written'
  le : written' ≤ size
  bytes : (l.flatMap (blockBytes fs')).take (written' - written) =
    (src.drop written).take (written' - written)

theorem take_blockBytes_copy (fs : FileSystem) (blk : ℤ) (src : List UInt8) {chunk : ℕ}
    (hb : chunk ≤ blockSize) (hs : chunk ≤ src.length) :
    (blockBytes (copyToBlock fs blk src chunk) blk).take chunk = src.take chunk := by
  refine List.ext_getElem (by simp [hb, hs]) fun o h₁ h₂ => ?_
  have ho : o < chunk := by
    simp only [List.length_take] at h₁
    omega
  have hsrc : o < src.length := by omega
  simp [blockBytes, copyToBlock, ho, hsrc]

/-- The file system after one block of the loop. -/
def fillBlock (fs : FileSystem) (src : List UInt8) (prev cur : ℤ) (written chunk : ℕ) :
    FileSystem :=
  let fs := copyToBlock fs cur (src.drop written) chunk
  let fs := if 0 ≤ prev then setFat fs prev cur else fs
  setFat fs cur (-1)

theorem fillBlock_fat (fs : FileSystem) (src : List UInt8) (prev cur : ℤ) (written chunk : ℕ)
    (b : ℤ) : (fillBlock fs src prev cur written chunk).fat b =
      if b = cur then -1 else if b = prev ∧ 0 ≤ prev then cur else fs.fat b := by
  unfold fillBlock setFat copyToBlock
  dsimp only
  rw [Function.update_apply]
  by_cases hb : b = cur
  · rw [if_pos hb, if_pos hb]
  · rw [if_neg hb, if_neg hb]
    split_ifs with h0 h1 h2
    · rw [h1.1]
      exact Function.update_self _ _ _
    · exact Function.update_of_ne (fun he => h1 ⟨he, h0⟩) _ _
    · exact absurd h2.2 h0
    · rfl

theorem fillBlock_rest (fs : FileSystem) (src : List UInt8) (prev cur : ℤ) (written chunk : ℕ) :
    (fillBlock fs src prev cur written chunk).data =
        (copyToBlock fs cur (src.drop written) chunk).data ∧
      (fillBlock fs src prev cur written chunk).files = fs.files ∧
      (fillBlock fs src prev cur written chunk).fileCount = fs.fileCount := by
  unfold fillBlock setFat copyToBlock
  dsimp only
  split_ifs <;> exact ⟨rfl, rfl, rfl⟩

/-- One block is the whole of what is filled. -/
theorem filled_one {fs : FileSystem} {src : List UInt8} {size : ℕ} {prev cur : ℤ}
    {written chunk : ℕ} (hcur : cur ∈ blockIndices) (hfree : fs.fat cur = -2)
    (hpos : 0 < chunk) (hblock : chunk ≤ blockSize) (hsize : written + chunk ≤ size)
    (hsrc : size ≤ src.length) :
    Filled fs (fillBlock fs src prev cur written chunk) src size prev cur written
      (written + chunk) [cur] := by
  have hfat := fillBlock_fat fs src prev cur written chunk
  obtain ⟨hd, hf, hc⟩ := fillBlock_rest fs src prev cur written chunk
  refine ⟨⟨rfl, ne_neg_of_mem hcur, ?_⟩, fun b hb => ?_, fun b hb => ?_, fun b hb => ?_, hf, hc,
    by omega, hsize, ?_⟩
  · rw [hfat, if_pos rfl]
    rfl
  · rw [List.mem_singleton.mp hb]
    exact ⟨hcur, hfree⟩
  · rw [hfat, if_neg (List.mem_singleton.not.mp hb)]
  · rw [hd]
    exact Function.update_of_ne (List.mem_singleton.not.mp hb) _ _
  · have hblk : blockBytes (fillBlock fs src prev cur written chunk) cur =
        blockBytes (copyToBlock fs cur (src.drop written) chunk) cur := by
      unfold blockBytes
      rw [hd]
    rw [List.flatMap_singleton, hblk, Nat.add_sub_cancel_left]
    exact take_blockBytes_copy fs cur _ hblock (by rw [List.length_drop]; omega)

theorem writeBlocks_succ (src : List UInt8) (size rest : ℕ) (fs : FileSystem) (prev cur : ℤ)
    {written : ℕ} (hlt : written < size) :
    writeBlocks src size (rest + 1) fs prev cur written =
      let chunk := min blockSize (size - written)
      let fs := fillBlock fs src prev cur written chunk
      if rest = 0 ∨ findFreeBlock fs < 0 then (fs, written + chunk)
      else writeBlocks src size rest fs cur (findFreeBlock fs) (written + chunk) := by
  have hchunk : (if blockSize < size - written then blockSize else size - written) =
      min blockSize (size - written) := by
    split_ifs <;> omega
  rw [writeBlocks, if_neg (not_le.mpr hlt)]
  dsimp only
  rw [hchunk]
  by_cases hrest : rest = 0
  · subst hrest
    rw [if_neg (lt_irrefl 0), if_pos (Or.inl rfl)]
    rfl
  · rw [if_pos (Nat.pos_of_ne_zero hrest)]
    by_cases hnext : findFreeBlock (fillBlock fs src prev cur written (min blockSize (size - written))) < 0
    · rw [if_pos (Or.inr hnext)]
      exact if_pos hnext
    · rw [if_neg (not_or.mpr ⟨hrest, hnext⟩)]
      exact if_neg hnext

/-- A block filled in front of others. -/
theorem Filled.cons {fs fs' : FileSystem} {src : List UInt8} {size : ℕ} {prev cur next : ℤ}
    {written written' : ℕ} {l : List ℤ}
    (hone : Filled fs (fillBlock fs src prev cur written blockSize) src size prev cur written
      (written + blockSize) [cur])
    (hsrc : size ≤ src.length)
    (h : Filled (fillBlock fs src prev cur written blockSize) fs' src size cur next
      (written + blockSize) written' l) :
    Filled fs fs' src size prev cur written written' (cur :: l) := by
  set fs₁ := fillBlock fs src prev cur written blockSize with hfs₁
  have hfat := fillBlock_fat fs src prev cur written blockSize
  obtain ⟨hcur, -⟩ := hone.free cur (List.mem_singleton_self cur)
  have hcur0 := (mem_blockIndices.mp hcur).1
  have hcur1 : fs₁.fat cur = -1 := by rw [hfat, if_pos rfl]
  have hnot : cur ∉ l := fun hc => by
    have := (h.free cur hc).2
    rw [hcur1] at this
    omega
  refine ⟨⟨rfl, ne_neg_of_mem hcur, ?_⟩, fun b hb => ?_, fun b hb => ?_, fun b hb => ?_,
    h.files.trans hone.files, h.fileCount.trans hone.fileCount, ?_, h.le, ?_⟩
  · rw [h.fat cur hnot, if_pos ⟨rfl, hcur0⟩]
    exact h.chain
  · rcases List.mem_cons.mp hb with rfl | hb
    · exact hone.free b (List.mem_singleton_self b)
    · obtain ⟨hbi, hb2⟩ := h.free b hb
      refine ⟨hbi, ?_⟩
      rw [hfat] at hb2
      split_ifs at hb2
      · omega
      · omega
      · exact hb2
  · obtain ⟨hbc, hbl⟩ := not_or.mp (List.mem_cons.not.mp hb)
    rw [h.fat b hbl, if_neg fun he => hbc he.1, hfat, if_neg hbc]
  · obtain ⟨hbc, hbl⟩ := not_or.mp (List.mem_cons.not.mp hb)
    rw [h.data b hbl]
    exact hone.data b (List.mem_singleton.not.mpr hbc)
  · have := h.lt
    omega
  · -- the first block holds a whole block of the source, the others the rest
    have hlt := h.lt
    have hle := h.le
    have hblk : blockBytes fs' cur = (src.drop written).take blockSize := by
      have hone' := hone.bytes
      rw [List.flatMap_singleton, Nat.add_sub_cancel_left] at hone'
      rw [← hone', List.take_of_length_le (length_blockBytes _ _).le]
      unfold blockBytes
      rw [h.data cur hnot]
    have hsplit : written' - written = blockSize + (written' - (written + blockSize)) := by omega
    have hlen : ((src.drop written).take blockSize).length = blockSize := by
      rw [List.length_take, List.length_drop]
      omega
    have hsrc' : ∀ k, (src.drop written).take (blockSize + k) =
        (src.drop written).take blockSize ++ (src.drop (written + blockSize)).take k := fun k => by
      rw [List.take_add, List.drop_drop]
    rw [List.flatMap_cons, hblk, hsplit, hsrc', ← h.bytes, List.take_append, hlen,
      Nat.add_sub_cancel_left, List.take_of_length_le (by rw [hlen]; omega)]

/-- The loop of `fs_write` : the induction is on the blocks that are left, the first of them
filled by `filled_one`. -/
theorem writeBlocks_filled {src : List UInt8} {size : ℕ} (hsrc : size ≤ src.length) :
    ∀ {rest : ℕ} {fs : FileSystem} {prev cur : ℤ} {written : ℕ}, cur ∈ blockIndices →
      fs.fat cur = -2 → written < size →
      rest * blockSize < size - written →
      ∃ l, Filled fs (writeBlocks src size (rest + 1) fs prev cur written).1 src size prev cur
        written (writeBlocks src size (rest + 1) fs prev cur written).2 l
  | rest, fs, prev, cur, written, hcur, hfree, hlt, hrest => by
    rw [writeBlocks_succ src size rest fs prev cur hlt]
    dsimp only
    set chunk := min blockSize (size - written) with hchunk
    have hblock : 0 < blockSize := by decide
    have hone : Filled fs (fillBlock fs src prev cur written chunk) src size prev cur written
        (written + chunk) [cur] :=
      filled_one hcur hfree (by omega) (by omega) (by omega) hsrc
    by_cases hstop : rest = 0 ∨ findFreeBlock (fillBlock fs src prev cur written chunk) < 0
    · rw [if_pos hstop]
      exact ⟨[cur], hone⟩
    · rw [if_neg hstop]
      rw [not_or, not_lt] at hstop
      obtain ⟨rest, rfl⟩ : ∃ r, rest = r + 1 := ⟨rest - 1, by omega⟩
      have hmul : (rest + 1) * blockSize = rest * blockSize + blockSize := Nat.succ_mul _ _
      have hfull : chunk = blockSize := by omega
      rw [hfull] at hone hstop ⊢
      obtain ⟨hnext, hnextfree⟩ := findFreeBlock_spec hstop.2
      have hlt' : written + blockSize < size := by omega
      have hrest' : rest * blockSize < size - (written + blockSize) := by omega
      obtain ⟨l, ih⟩ := writeBlocks_filled hsrc hnext hnextfree hlt' hrest'
      exact ⟨cur :: l, hone.cons hsrc ih⟩

/-- What a successful write does : `n` bytes of the source in the free blocks `l`, which are
appended to the chain of file `idx`. -/
structure Appended (fs fs' : FileSystem) (idx : ℕ) (src : List UInt8) (n : ℕ) (l : List ℤ) :
    Prop where
  chain : Chain fs'.fat (-1) (fs'.files idx).firstBlock (fileBlocks fs idx ++ l)
  free : ∀ b ∈ l, b ∈ blockIndices ∧ fs.fat b = -2
  entry : fs'.files idx = { fs.files idx with
    firstBlock := (fs'.files idx).firstBlock, size := (fs.files idx).size + n }
  files : ∀ i, i ≠ idx → fs'.files i = fs.files i
  fat : ∀ b ∉ fileBlocks fs idx ++ l, fs'.fat b = fs.fat b
  data : ∀ b ∉ l, fs'.data b = fs.data b
  bytes : (l.flatMap (blockBytes fs')).take n = src.take n

section Attach

variable {fs fs₁ : FileSystem} {src : List UInt8} {size n idx : ℕ} {first : ℤ} {l : List ℤ}

/-- Without a block in front the loop only changes the blocks it fills. -/
theorem Filled.fat_eq (hf : Filled fs fs₁ src size (-1) first 0 n l) {b : ℤ} (hb : b ∉ l) :
    fs₁.fat b = fs.fat b := by
  rw [hf.fat b hb, if_neg fun he => by omega]

/-- A block of a file is not free, so the loop leaves the chains of the files as they were. -/
theorem Filled.chain_kept (hf : Filled fs fs₁ src size (-1) first 0 n l) (h : WellFormed fs)
    (hidx : idx < maxFiles) (hu : (fs.files idx).used = true) :
    (∀ b ∈ fileBlocks fs idx, b ∉ l) ∧
      Chain fs₁.fat (-1) (fs₁.files idx).firstBlock (fileBlocks fs idx) := by
  have hold : ∀ b ∈ fileBlocks fs idx, b ∉ l := fun b hb hbl =>
    h.not_free hidx hu hb (hf.free b hbl).2
  refine ⟨hold, ?_⟩
  rw [hf.files]
  exact (h.chain idx hidx hu).1.congr fun b hb => hf.fat_eq (hold b hb)

/-- The filled blocks become the chain of a file that has none. -/
theorem Filled.appended_first (hf : Filled fs fs₁ src size (-1) first 0 n l)
    (hempty : fileBlocks fs idx = []) :
    Appended fs (setFile (setFile fs₁ idx fun f => { f with firstBlock := first }) idx
      fun f => { f with size := f.size + n }) idx src n l := by
  have hbytes := hf.bytes
  rw [List.drop_zero, Nat.sub_zero] at hbytes
  refine ⟨?_, hf.free, ?_, fun i hi => ?_, fun b hb => ?_, hf.data, hbytes⟩
  · rw [hempty, List.nil_append, setFile_self, setFile_self]
    exact hf.chain
  · rw [setFile_self, setFile_self, hf.files]
  · rw [setFile_of_ne _ hi, setFile_of_ne _ hi, hf.files]
  · rw [hempty, List.nil_append] at hb
    exact hf.fat_eq hb

/-- The filled blocks are linked behind the last block of the file. -/
theorem Filled.appended_last (hf : Filled fs fs₁ src size (-1) first 0 n l) (h : WellFormed fs)
    (hidx : idx < maxFiles) (hu : (fs.files idx).used = true) (hne : fileBlocks fs idx ≠ []) :
    Appended fs (setFile (setFat fs₁ (lastBlock fs₁ (fs₁.files idx).firstBlock) first) idx
      fun f => { f with size := f.size + n }) idx src n l := by
  obtain ⟨hold, hchain⟩ := hf.chain_kept h hidx hu
  have hbytes := hf.bytes
  rw [List.drop_zero, Nat.sub_zero] at hbytes
  have hlast : lastBlock fs₁ (fs₁.files idx).firstBlock = (fileBlocks fs idx).getLast hne :=
    hchain.lastNode_eq hne (length_chain_le hchain (h.chain idx hidx hu).2)
  have hmem := List.getLast_mem hne
  have hfiles : (setFat fs₁ ((fileBlocks fs idx).getLast hne) first).files = fs.files := hf.files
  have hnew : Chain (Function.update fs₁.fat ((fileBlocks fs idx).getLast hne) first) (-1) first l := by
    refine hf.chain.congr fun x hx => Function.update_of_ne (fun he => ?_) _ _
    exact hold _ hmem (he ▸ hx)
  rw [hlast]
  refine ⟨?_, hf.free, ?_, fun i hi => ?_, fun b hb => ?_, hf.data, hbytes⟩
  · rw [setFile_self, hfiles]
    rw [hf.files] at hchain
    exact hchain.append hne (fun x _ hx => Function.update_of_ne hx _ _)
      (Function.update_self _ _ _) hnew
  · rw [setFile_self, hfiles]
  · rw [setFile_of_ne _ hi, hfiles]
  · rw [List.mem_append, not_or] at hb
    have hbl : b ≠ (fileBlocks fs idx).getLast hne := fun he => hb.1 (he ▸ hmem)
    exact (Function.update_of_ne hbl _ _).trans (hf.fat_eq hb.2)

end Attach

/-- The loop of a write that starts at a free block. -/
theorem writeBlocks_first {fs : FileSystem} {src : List UInt8} {size : ℤ}
    (hsrc : size.toNat ≤ src.length) {total first : ℤ} (hfirst : first ∈ blockIndices)
    (hfree : fs.fat first = -2) (htotal : 0 < total)
    (hneed : (total.toNat - 1) * blockSize < size.toNat) :
    ∃ l, Filled fs (writeBlocks src size.toNat total.toNat fs (-1) first 0).1 src size.toNat (-1)
      first 0 (writeBlocks src size.toNat total.toNat fs (-1) first 0).2 l := by
  obtain ⟨rest, hrest⟩ : ∃ r, total.toNat = r + 1 := ⟨total.toNat - 1, by omega⟩
  rw [hrest, Nat.add_sub_cancel] at hneed
  rw [hrest]
  exact writeBlocks_filled hsrc hfirst hfree (by omega) (by omega)

theorem writeFile_appended {fs : FileSystem} (h : WellFormed fs) {idx : ℕ} (hidx : idx < maxFiles)
    (hu : (fs.files idx).used = true) {src : List UInt8} {size : ℤ}
    (hsrc : size.toNat ≤ src.length) {total first : ℤ} (hfirst : first ∈ blockIndices)
    (hfree : fs.fat first = -2) (htotal : 0 < total)
    (hneed : (total.toNat - 1) * blockSize < size.toNat) :
    ∃ (n : ℕ) (l : List ℤ), (writeFile fs idx src size total first).2 = n ∧ 0 < n ∧ n ≤ size.toNat ∧
      Appended fs (writeFile fs idx src size total first).1 idx src n l := by
  obtain ⟨l, hf⟩ := writeBlocks_first hsrc hfirst hfree htotal hneed
  obtain ⟨hc, hl⟩ := h.chain idx hidx hu
  rw [writeFile]
  generalize writeBlocks src size.toNat total.toNat fs (-1) first 0 = r at hf ⊢
  obtain ⟨fs₁, n⟩ := r
  dsimp only at hf ⊢
  have hlt := hf.lt
  refine ⟨n, l, rfl, by omega, hf.le, ?_⟩
  by_cases hempty : fileBlocks fs idx = []
  · have hneg : (fs₁.files idx).firstBlock < 0 := by
      rw [hempty, chain_nil] at hc
      rw [hf.files, hc]
      decide
    rw [if_pos hneg]
    exact hf.appended_first hempty
  · have hpos : ¬(fs₁.files idx).firstBlock < 0 := by
      obtain ⟨c, cs, hcs⟩ := List.exists_cons_of_ne_nil hempty
      rw [hcs] at hc hl
      rw [hf.files, hc.1]
      have := (mem_blockIndices.mp (hl c List.mem_cons_self)).1
      omega
    rw [if_neg hpos]
    exact hf.appended_last h hidx hu hempty

theorem Appended.sameFile {fs fs' : FileSystem} {idx : ℕ} {src : List UInt8} {n : ℕ} {l : List ℤ}
    (a : Appended fs fs' idx src n l) (h : WellFormed fs) (hidx : idx < maxFiles)
    (hu : (fs.files idx).used = true) {i : ℕ} (hi : i < maxFiles) (hiu : (fs.files i).used = true)
    (hne : i ≠ idx) : SameFile fs fs' i := by
  have hold : ∀ b ∈ fileBlocks fs i, b ∉ l := fun b hb hbl =>
    h.not_free hi hiu hb (a.free b hbl).2
  refine ⟨a.files i hne, fun b hb => a.fat b fun hm => ?_, fun b hb => a.data b (hold b hb)⟩
  rcases List.mem_append.mp hm with hm | hm
  · exact h.disjoint i hi idx hidx hiu hu hne b hb hm
  · exact hold b hb hm

theorem Appended.used {fs fs' : FileSystem} {idx : ℕ} {src : List UInt8} {n : ℕ} {l : List ℤ}
    (a : Appended fs fs' idx src n l) (i : ℕ) : (fs'.files i).used = (fs.files i).used ∧
      (fs'.files i).path = (fs.files i).path := by
  by_cases hi : i = idx
  · rw [hi, a.entry]
    exact ⟨rfl, rfl⟩
  · rw [a.files i hi]
    exact ⟨rfl, rfl⟩

theorem Appended.wellFormed {fs fs' : FileSystem} {idx : ℕ} {src : List UInt8} {n : ℕ}
    {l : List ℤ} (a : Appended fs fs' idx src n l) (h : WellFormed fs) (hidx : idx < maxFiles)
    (hu : (fs.files idx).used = true) : WellFormed fs' := by
  have hl : ∀ b ∈ fileBlocks fs idx ++ l, b ∈ blockIndices := fun b hb =>
    (List.mem_append.mp hb).elim ((h.chain idx hidx hu).2 b) fun hb => (a.free b hb).1
  -- no block of another file is on the longer chain
  have hdisj : ∀ i < maxFiles, (fs.files i).used = true → i ≠ idx →
      ∀ b ∈ fileBlocks fs i, b ∉ fileBlocks fs idx ++ l := by
    intro i hi hiu hne b hb hm
    rcases List.mem_append.mp hm with hm | hm
    · exact h.disjoint i hi idx hidx hiu hu hne b hb hm
    · exact h.not_free hi hiu hb (a.free b hm).2
  refine .of_chains (fun i => if i = idx then fileBlocks fs idx ++ l else fileBlocks fs i)
    (fun i hi hiu => ?_) (fun i hi j hj hiu hju hij b hb => ?_) fun b hb hno => ?_
  · rw [(a.used i).1] at hiu
    by_cases hii : i = idx
    · rw [if_pos hii, hii]
      exact ⟨a.chain, hl⟩
    · rw [if_neg hii]
      exact ⟨(a.sameFile h hidx hu hi hiu hii).chain (h.chain i hi hiu).1, (h.chain i hi hiu).2⟩
  · rw [(a.used i).1] at hiu
    rw [(a.used j).1] at hju
    by_cases hii : i = idx
    · rw [if_pos hii] at hb
      have hji : j ≠ idx := fun he => hij (hii.trans he.symm)
      rw [if_neg hji]
      exact fun hbj => hdisj j hj hju hji b hbj hb
    · rw [if_neg hii] at hb
      by_cases hji : j = idx
      · rw [if_pos hji]
        exact hdisj i hi hiu hii b hb
      · rw [if_neg hji]
        exact h.disjoint i hi j hj hiu hju hij b hb
  · have hidx' := hno idx hidx ((a.used idx).1.trans hu)
    rw [if_pos rfl] at hidx'
    rw [a.fat b hidx']
    refine h.free b hb fun i hi hiu hbi => ?_
    by_cases hii : i = idx
    · exact hidx' (List.mem_append_left l (hii ▸ hbi))
    · have := hno i hi ((a.used i).1.trans hiu)
      rw [if_neg hii] at this
      exact this hbi

/-- A write behind a full last block extends the contents by what was written. -/
theorem Appended.fileContents_eq {fs fs' : FileSystem} {idx : ℕ} {src : List UInt8} {n : ℕ}
    {l : List ℤ} (a : Appended fs fs' idx src n l) (h : WellFormed fs) (hidx : idx < maxFiles)
    (hu : (fs.files idx).used = true)
    (hfull : (fs.files idx).size = blockSize * (fileBlocks fs idx).length) :
    fileContents fs' idx = fileContents fs idx ++ src.take n := by
  have hl : ∀ b ∈ fileBlocks fs idx ++ l, b ∈ blockIndices := fun b hb =>
    (List.mem_append.mp hb).elim ((h.chain idx hidx hu).2 b) fun hb => (a.free b hb).1
  have hsame : ∀ b ∈ fileBlocks fs idx, blockBytes fs' b = blockBytes fs b := fun b hb => by
    unfold blockBytes
    rw [a.data b fun hbl => h.not_free hidx hu hb (a.free b hbl).2]
  have hlen : ((fileBlocks fs idx).flatMap (blockBytes fs)).length = (fs.files idx).size := by
    rw [List.length_flatMap, hfull]
    simp [mul_comm]
  have hsize : (fs'.files idx).size = (fs.files idx).size + n := by rw [a.entry]
  unfold fileContents
  rw [fileBlocks_eq a.chain hl, hsize, List.flatMap_append, List.flatMap_congr hsame, ← hlen,
    List.take_length_add_append, a.bytes, List.take_length]

/-! ## `fs_write` -/

/-- Everything that opening a file for a write can do. -/
theorem openForWrite_cases (fs : FileSystem) (path : CString) :
    (∃ idx, findFile fs path = some idx ∧ openForWrite fs path = (fs, some idx)) ∨
      (findFile fs path = none ∧ (openForWrite fs path).1 = fs ∧ (openForWrite fs path).2 = none) ∨
      (findFile fs path = none ∧ fs.fileCount < maxFiles ∧ ∃ idx < maxFiles,
        (fs.files idx).used = false ∧ (∀ j < idx, (fs.files j).used = true) ∧
          openForWrite fs path = (withFile fs idx path, findFile (withFile fs idx path) path)) := by
  unfold openForWrite
  cases hf : findFile fs path with
  | some idx => exact Or.inl ⟨idx, rfl, rfl⟩
  | none =>
    right
    rcases fsCreate_cases fs path with he | ⟨hcount, -, idx, hidx, hu, hall, he⟩
    · left
      dsimp only
      rw [he, hf]
      split_ifs <;> exact ⟨rfl, rfl, rfl⟩
    · right
      rw [he]
      exact ⟨rfl, hcount, idx, hidx, hu, hall, if_neg (by decide)⟩

theorem WellFormed.openForWrite {fs : FileSystem} (h : WellFormed fs) (path : CString) :
    WellFormed (openForWrite fs path).1 := by
  rcases openForWrite_cases fs path with ⟨idx, -, he⟩ | ⟨-, he, -⟩ | ⟨-, -, idx, -, hu, -, he⟩
  · rw [he]
    exact h
  · rw [he]
    exact h
  · rw [he]
    exact h.withFile hu path

theorem openForWrite_some {fs : FileSystem} {path : CString} {idx : ℕ}
    (h : (openForWrite fs path).2 = some idx) : findFile (openForWrite fs path).1 path = some idx := by
  rcases openForWrite_cases fs path with ⟨i, hf, he⟩ | ⟨-, -, hn⟩ | ⟨-, -, i, -, -, -, he⟩
  · rw [he] at h ⊢
    exact hf.trans h
  · rw [hn] at h
    cases h
  · rw [he] at h ⊢
    exact h

/-- The largest `int`. -/
def intMax : ℤ := 2 ^ 31 - 1

/-- The number of blocks of a write whose rounding up does not overflow. -/
theorem totalBlocks_spec {size : ℤ} (hpos : 0 < size) (hfit : size + blockSize - 1 ≤ intMax) :
    0 < (wrapInt (size + blockSize - 1)).tdiv blockSize ∧
      (((wrapInt (size + blockSize - 1)).tdiv blockSize).toNat - 1) * blockSize < size.toNat := by
  have hb : (blockSize : ℤ) = 64 := rfl
  have hb' : blockSize = 64 := rfl
  have hm : intMax = 2147483647 := by decide
  rw [hb, hm] at hfit
  have hw : wrapInt (size + 64 - 1) = size + 64 - 1 :=
    Int.bmod_eq_of_le (by omega) (by omega)
  rw [hb, hb', hw, Int.tdiv_eq_ediv_of_nonneg (by omega)]
  omega

/-- Everything a write can do, unless rounding its size up overflows : it fails after opening
the file, or it appends. -/
theorem fsWrite_cases {fs : FileSystem} (h : WellFormed fs) (path : CString) {src : List UInt8}
    {size : ℤ} (hpos : 0 < size) (hfit : size + blockSize - 1 ≤ intMax)
    (hsrc : size.toNat ≤ src.length) :
    (fsWrite fs path src size = ((openForWrite fs path).1, -1)) ∨
      ∃ (idx n : ℕ) (l : List ℤ), (openForWrite fs path).2 = some idx ∧
        (fsWrite fs path src size).2 = n ∧ 0 < n ∧ n ≤ size.toNat ∧
        Appended (openForWrite fs path).1 (fsWrite fs path src size).1 idx src n l := by
  have hwf := h.openForWrite path
  have hsome : ∀ idx, (openForWrite fs path).2 = some idx →
      findFile (openForWrite fs path).1 path = some idx := fun idx => openForWrite_some
  obtain ⟨htotal, hneed⟩ := totalBlocks_spec hpos hfit
  rw [fsWrite, if_neg (not_le.mpr hpos)]
  generalize openForWrite fs path = o at hwf hsome ⊢
  obtain ⟨fs₁, file⟩ := o
  cases file with
  | none => exact Or.inl rfl
  | some idx =>
    dsimp only at hwf hsome ⊢
    obtain ⟨hidx, hu, -⟩ := findFile_eq_some (hsome idx rfl)
    split_ifs with hlarge hfull
    · exact Or.inl rfl
    · exact Or.inl rfl
    · obtain ⟨hfirst, hfree⟩ := findFreeBlock_spec (not_lt.mp hfull)
      obtain ⟨n, l, hret, hn, hle, ha⟩ :=
        writeFile_appended hwf hidx hu hsrc hfirst hfree htotal hneed
      exact Or.inr ⟨idx, n, l, rfl, hret, hn, hle, ha⟩

/-! ## `fs_delete` -/

/-- The blocks `l` are free and cleared, the others as they were. -/
theorem freeBlocks_spec {l : List ℤ} :
    ∀ {fuel : ℕ} {blk : ℤ} {fs : FileSystem}, Chain fs.fat (-1) blk l → l.length ≤ fuel →
      (∀ b, (freeBlocks fuel blk fs).fat b = if b ∈ l then -2 else fs.fat b) ∧
      (∀ b, (freeBlocks fuel blk fs).data b = if b ∈ l then fun _ => 0 else fs.data b) ∧
      (freeBlocks fuel blk fs).files = fs.files ∧
      (freeBlocks fuel blk fs).fileCount = fs.fileCount := by
  induction l with
  | nil =>
    intro fuel blk fs h _
    have he : freeBlocks fuel blk fs = fs := by
      cases fuel with
      | zero => rfl
      | succ fuel => exact if_pos (chain_nil.mp h)
    rw [he]
    exact ⟨fun b => by simp, fun b => by simp, rfl, rfl⟩
  | cons c l ih =>
    intro fuel blk fs h hf
    have hnd := h.nodup
    obtain ⟨rfl, hb, h⟩ := h
    obtain ⟨fuel, rfl⟩ : ∃ f, fuel = f + 1 := ⟨fuel - 1, by simp at hf; omega⟩
    obtain ⟨hnot, -⟩ := List.nodup_cons.mp hnd
    have hrest : Chain (Function.update fs.fat blk (-2)) (-1) (fs.fat blk) l := by
      refine h.congr fun x hx => Function.update_of_ne ?_ _ _
      rintro rfl
      exact hnot hx
    have hstep : freeBlocks (fuel + 1) blk fs = freeBlocks fuel (fs.fat blk)
        { setFat fs blk (-2) with data := Function.update fs.data blk fun _ => 0 } := if_neg hb
    have hlen : l.length ≤ fuel := by simpa using hf
    rw [hstep]
    obtain ⟨hfat, hdata, hfiles, hcount⟩ := @ih fuel (fs.fat blk)
      { setFat fs blk (-2) with data := Function.update fs.data blk fun _ => 0 } hrest hlen
    refine ⟨fun b => ?_, fun b => ?_, hfiles, hcount⟩
    · rw [hfat]
      simp only [setFat, Function.update_apply, List.mem_cons]
      split_ifs <;> tauto
    · rw [hdata]
      simp only [Function.update_apply, List.mem_cons]
      split_ifs <;> tauto

/-- What a successful delete does : the blocks of file `idx` are free and cleared. -/
structure Released (fs fs' : FileSystem) (idx : ℕ) : Prop where
  fat : ∀ b, fs'.fat b = if b ∈ fileBlocks fs idx then -2 else fs.fat b
  data : ∀ b, fs'.data b = if b ∈ fileBlocks fs idx then fun _ => 0 else fs.data b
  unused : (fs'.files idx).used = false
  files : ∀ i, i ≠ idx → fs'.files i = fs.files i

theorem fsDelete_cases {fs : FileSystem} (h : DisjointChains fs) (path : CString) :
    (findFile fs path = none ∧ fsDelete fs path = (fs, -1)) ∨
      ∃ idx, findFile fs path = some idx ∧ (fsDelete fs path).2 = 0 ∧
        Released fs (fsDelete fs path).1 idx := by
  unfold fsDelete
  cases hf : findFile fs path with
  | none => exact Or.inl ⟨rfl, rfl⟩
  | some idx =>
    obtain ⟨hidx, hu, -⟩ := findFile_eq_some hf
    obtain ⟨hc, hl⟩ := h.chain idx hidx hu
    obtain ⟨hfat, hdata, hfiles, -⟩ := freeBlocks_spec hc (length_chain_le hc hl)
    refine Or.inr ⟨idx, rfl, rfl, hfat, hdata, ?_, fun i hi => ?_⟩
    · dsimp only
      rw [setFile_self]
    · dsimp only
      rw [setFile_of_ne _ hi, hfiles]

theorem Released.sameFile {fs fs' : FileSystem} {idx : ℕ} (r : Released fs fs' idx)
    (h : DisjointChains fs) (hidx : idx < maxFiles) (hu : (fs.files idx).used = true) {i : ℕ}
    (hi : i < maxFiles) (hiu : (fs.files i).used = true) (hne : i ≠ idx) : SameFile fs fs' i := by
  have hdisj := h.disjoint i hi idx hidx hiu hu hne
  refine ⟨r.files i hne, fun b hb => ?_, fun b hb => ?_⟩
  · rw [r.fat, if_neg (hdisj b hb)]
  · rw [r.data, if_neg (hdisj b hb)]

theorem Released.wellFormed {fs fs' : FileSystem} {idx : ℕ} (r : Released fs fs' idx)
    (h : WellFormed fs) (hidx : idx < maxFiles) (hu : (fs.files idx).used = true) :
    WellFormed fs' := by
  have hne : ∀ i, (fs'.files i).used = true → i ≠ idx := by
    rintro i hi rfl
    rw [r.unused] at hi
    cases hi
  have hused : ∀ i, (fs'.files i).used = true → (fs.files i).used = true := fun i hi => by
    rw [← r.files i (hne i hi)]
    exact hi
  refine .of_chains (fileBlocks fs) (fun i hi hiu => ?_) (fun i hi j hj hiu hju hij => ?_)
    fun b hb hno => ?_
  · obtain ⟨hc, hl⟩ := h.chain i hi (hused i hiu)
    exact ⟨(r.sameFile h.chains hidx hu hi (hused i hiu) (hne i hiu)).chain hc, hl⟩
  · exact h.disjoint i hi j hj (hused i hiu) (hused j hju) hij
  · rw [r.fat]
    split_ifs with hbi
    · rfl
    · refine h.free b hb fun i hi hiu hbf => ?_
      by_cases hii : i = idx
      · exact hbi (hii ▸ hbf)
      · exact hno i hi (by rw [r.files i hii]; exact hiu) hbf

end FleetOS
