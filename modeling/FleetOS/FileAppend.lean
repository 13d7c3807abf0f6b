import FleetOS.FileChains

/-!
# Appending to a file

`fs_write` appends in a new chain of blocks, also when the last block of the file has room,
while `fs_read` takes the bytes of the file to lie in its blocks without a gap. So what was
written can be read back as long as every write finds the file's last block full
(`fsRead_after_writes`), and a second write after a short one cannot
(`fsRead_after_short_write`).

A second way to lose a file is a path of more than 63 characters : creating it stores the
first 63 only, and the new entry hides a file of that name that comes later in the directory
(`Shadows`).
-/

namespace FleetOS

/-- The bytes of the file with this path, none if there is no such file. -/
def contents (fs : FileSystem) (path : CString) : List UInt8 :=
  match findFile fs path with
  | none => []
  | some idx => fileContents fs idx

/-- The blocks of the file are full, or there is no such file. -/
def LastBlockFull (fs : FileSystem) (path : CString) : Prop :=
  ∀ idx, findFile fs path = some idx →
    (fs.files idx).size = blockSize * (fileBlocks fs idx).length

/-- Creating `q` would make an entry named `path` in front of the file `path`. -/
def Shadows (fs : FileSystem) (path q : CString) : Prop :=
  q.take 63 = path ∧ fs.fileCount < maxFiles ∧
    ∃ i j, findFile fs path = some i ∧ findUnused fs = some j ∧ j < i

/-- The size is that of a part of the source, and rounding it up does not overflow. -/
structure Fits (src : List UInt8) (size : ℤ) : Prop where
  source : size.toNat ≤ src.length
  int : size + blockSize - 1 ≤ intMax

/-- A sequence of writes to `path`, each of which stores all it is given behind a full block, of
writes to other paths that do not hide the file, and of deletes of other paths; with all that
was written to `path`. -/
inductive WriteRun (path : CString) : FileSystem → List UInt8 → FileSystem → Prop
  | done (fs : FileSystem) : WriteRun path fs [] fs
  | write {fs fs' : FileSystem} {src rest : List UInt8} {size : ℤ} (hpos : 0 < size)
      (hfits : Fits src size) (hfull : LastBlockFull fs path)
      (hret : (fsWrite fs path src size).2 = size)
      (hrest : WriteRun path (fsWrite fs path src size).1 rest fs') :
      WriteRun path fs (src.take size.toNat ++ rest) fs'
  | writeOther {fs fs' : FileSystem} {q : CString} {src rest : List UInt8} {size : ℤ}
      (hq : q ≠ path) (hfits : Fits src size) (hshadow : ¬Shadows fs path q)
      (hrest : WriteRun path (fsWrite fs q src size).1 rest fs') : WriteRun path fs rest fs'
  | deleteOther {fs fs' : FileSystem} {q : CString} {rest : List UInt8} (hq : q ≠ path)
      (hrest : WriteRun path (fsDelete fs q).1 rest fs') : WriteRun path fs rest fs'

/-! ## A file that is left alone -/

theorem contents_of_some {fs : FileSystem} {path : CString} {i : ℕ}
    (h : findFile fs path = some i) : contents fs path = fileContents fs i := by
  simp [contents, h]

theorem contents_of_none {fs : FileSystem} {path : CString} (h : findFile fs path = none) :
    contents fs path = [] := by
  simp [contents, h]

/-- The same lookup and the same file give the same bytes. -/
theorem contents_congr {fs fs' : FileSystem} {path : CString} (hwf : WellFormed fs)
    (hfind : findFile fs' path = findFile fs path)
    (hsame : ∀ i, findFile fs path = some i → SameFile fs fs' i) :
    contents fs' path = contents fs path := by
  cases hf : findFile fs path with
  | none => rw [contents_of_none hf, contents_of_none (hfind.trans hf)]
  | some i =>
    obtain ⟨hi, hu, -⟩ := findFile_eq_some hf
    rw [contents_of_some hf, contents_of_some (hfind.trans hf),
      (hsame i hf).fileContents_eq hwf.chains hi hu]

theorem findUnused_eq {fs : FileSystem} {idx : ℕ} (hidx : idx < maxFiles)
    (hu : (fs.files idx).used = false) (hall : ∀ j < idx, (fs.files j).used = true) :
    findUnused fs = some idx := by
  refine List.find?_range_eq_some.mpr ⟨by simp [hu], List.mem_range.mpr hidx, fun j hj => ?_⟩
  simp [hall j hj]

/-- Making the file itself, or another one that does not hide it. -/
theorem contents_withFile {fs : FileSystem} {path q : CString} (hwf : WellFormed fs) {idx : ℕ}
    (hidx : idx < maxFiles) (hu : (fs.files idx).used = false)
    (hall : ∀ j < idx, (fs.files j).used = true) (hcount : fs.fileCount < maxFiles)
    (hshadow : ¬Shadows fs path q) :
    contents (withFile fs idx q) path = contents fs path ∧
      ((findFile fs path).isSome = true → findFile (withFile fs idx q) path = findFile fs path) := by
  have hne : ∀ i, findFile fs path = some i → i ≠ idx := by
    rintro i hf rfl
    have := (findFile_eq_some hf).2.1
    rw [hu] at this
    cases this
  by_cases hq : q.take 63 = path
  · cases hf : findFile fs path with
    | none =>
      refine ⟨?_, fun h => by cases h⟩
      rw [contents_of_none hf]
      cases hf' : findFile (withFile fs idx q) path with
      | none => exact contents_of_none hf'
      | some i =>
        obtain ⟨hi, hiu, hip⟩ := findFile_eq_some hf'
        have hii : i = idx := by
          by_contra hii
          rw [withFile_of_ne fs q hii] at hiu hip
          exact findFile_eq_none.mp hf i hi ⟨hiu, hip⟩
        rw [contents_of_some hf', hii, fileContents, withFile_self]
        rfl
    | some i =>
      -- the new entry comes after the file
      have hlt : i < idx := by
        have hunused := findUnused_eq hidx hu hall
        have := hne i hf
        by_contra hle
        exact hshadow ⟨hq, hcount, i, idx, hf, hunused, by omega⟩
      have hfind : findFile (withFile fs idx q) path = some i := by
        obtain ⟨hp, hi, hfirst⟩ := List.find?_range_eq_some.mp hf
        refine List.find?_range_eq_some.mpr ⟨?_, hi, fun j hj => ?_⟩
        · rw [withFile_of_ne fs q (by omega)]
          exact hp
        · rw [withFile_of_ne fs q (by omega)]
          exact hfirst j hj
      refine ⟨contents_congr hwf (hfind.trans hf.symm) fun j hj => ?_, fun _ => hfind⟩
      exact sameFile_withFile fs q (hne j hj)
  · have hfind : findFile (withFile fs idx q) path = findFile fs path := by
      refine findFile_congr fun i _ => ?_
      by_cases hii : i = idx
      · rw [hii, withFile_self]
        exact iff_of_false (fun h => hq h.2) fun h => by
          rw [hu] at h
          cases h.1
      · rw [withFile_of_ne fs q hii]
    exact ⟨contents_congr hwf hfind fun i hi => sameFile_withFile fs q (hne i hi), fun _ => hfind⟩

theorem contents_openForWrite {fs : FileSystem} {path q : CString} (hwf : WellFormed fs)
    (hshadow : ¬Shadows fs path q) :
    contents (openForWrite fs q).1 path = contents fs path ∧
      ((findFile fs path).isSome = true →
        findFile (openForWrite fs q).1 path = findFile fs path) := by
  rcases openForWrite_cases fs q with
    ⟨idx, -, he⟩ | ⟨-, he, -⟩ | ⟨-, hcount, idx, hidx, hu, hall, he⟩
  · rw [he]
    exact ⟨rfl, fun _ => rfl⟩
  · rw [he]
    exact ⟨rfl, fun _ => rfl⟩
  · rw [he]
    exact contents_withFile hwf hidx hu hall hcount hshadow

theorem Appended.findFile_eq {fs fs' : FileSystem} {idx : ℕ} {src : List UInt8} {n : ℕ} {l : List ℤ}
    (a : Appended fs fs' idx src n l) (path : CString) :
    findFile fs' path = findFile fs path :=
  findFile_congr fun i _ => by rw [(a.used i).1, (a.used i).2]

/-! ## The steps -/

/-- What a run keeps : the file system is well-formed, and a file that exists stays. -/
structure Kept (path : CString) (fs fs' : FileSystem) : Prop where
  wellFormed : WellFormed fs'
  exists_file : (findFile fs path).isSome = true → (findFile fs' path).isSome = true

theorem fsWrite_other {fs : FileSystem} {path q : CString} {src : List UInt8} {size : ℤ}
    (hwf : WellFormed fs) (hq : q ≠ path) (hfits : Fits src size) (hshadow : ¬Shadows fs path q) :
    Kept path fs (fsWrite fs q src size).1 ∧
      contents (fsWrite fs q src size).1 path = contents fs path := by
  by_cases hpos : 0 < size
  · have hwf' := hwf.openForWrite q
    obtain ⟨hc, hfind⟩ := contents_openForWrite hwf hshadow
    rcases fsWrite_cases hwf q hpos hfits.int hfits.source with
      he | ⟨idx, n, l, hidx, -, -, -, ha⟩
    · rw [he]
      exact ⟨⟨hwf', fun h => (hfind h).symm ▸ h⟩, hc⟩
    · obtain ⟨hlt, hu, hqp⟩ := findFile_eq_some (openForWrite_some hidx)
      have hfind' := ha.findFile_eq path
      refine ⟨⟨ha.wellFormed hwf' hlt hu, fun h => ?_⟩, ?_⟩
      · rw [hfind', hfind h]
        exact h
      · refine (contents_congr hwf' hfind' fun i hi => ?_).trans hc
        obtain ⟨hi', hiu, hip⟩ := findFile_eq_some hi
        refine ha.sameFile hwf' hlt hu hi' hiu ?_
        rintro rfl
        exact hq (hqp.symm.trans hip)
  · have he : fsWrite fs q src size = (fs, -1) := if_pos (not_lt.mp hpos)
    rw [he]
    exact ⟨⟨hwf, id⟩, rfl⟩

theorem fsDelete_other {fs : FileSystem} {path q : CString} (hwf : WellFormed fs) (hq : q ≠ path) :
    Kept path fs (fsDelete fs q).1 ∧ contents (fsDelete fs q).1 path = contents fs path := by
  rcases fsDelete_cases hwf.chains q with ⟨-, he⟩ | ⟨idx, hidx, -, hr⟩
  · rw [he]
    exact ⟨⟨hwf, id⟩, rfl⟩
  · obtain ⟨hlt, hu, hqp⟩ := findFile_eq_some hidx
    have hfind : findFile (fsDelete fs q).1 path = findFile fs path := by
      refine findFile_congr fun i _ => ?_
      by_cases hii : i = idx
      · rw [hii, hr.unused, hqp]
        exact iff_of_false (fun h => by cases h.1) fun h => hq h.2
      · rw [hr.files i hii]
    refine ⟨⟨hr.wellFormed hwf hlt hu, fun h => hfind ▸ h⟩, contents_congr hwf hfind fun i hi => ?_⟩
    obtain ⟨hi', hiu, hip⟩ := findFile_eq_some hi
    refine hr.sameFile hwf.chains hlt hu hi' hiu ?_
    rintro rfl
    exact hq (hqp.symm.trans hip)

/-- A write that stores everything behind full blocks. -/
theorem fsWrite_full {fs : FileSystem} {path : CString} {src : List UInt8} {size : ℤ}
    (hwf : WellFormed fs) (hpath : path.length ≤ 63) (hpos : 0 < size) (hfits : Fits src size)
    (hfull : LastBlockFull fs path) (hret : (fsWrite fs path src size).2 = size) :
    WellFormed (fsWrite fs path src size).1 ∧
      (findFile (fsWrite fs path src size).1 path).isSome = true ∧
      contents (fsWrite fs path src size).1 path = contents fs path ++ src.take size.toNat := by
  have hwf' := hwf.openForWrite path
  have htake : path.take 63 = path := List.take_of_length_le hpath
  rcases fsWrite_cases hwf path hpos hfits.int hfits.source with
    he | ⟨idx, n, l, hidx, hn, -, -, ha⟩
  · rw [he] at hret
    have hret : (-1 : ℤ) = size := hret
    omega
  · have hf := openForWrite_some hidx
    obtain ⟨hlt, hu, -⟩ := findFile_eq_some hf
    have hfind := (ha.findFile_eq path).trans hf
    have hnat : n = size.toNat := by omega
    -- a file that was just made has no blocks
    have hopen : ((openForWrite fs path).1.files idx).size =
          blockSize * (fileBlocks (openForWrite fs path).1 idx).length ∧
        contents (openForWrite fs path).1 path = contents fs path := by
      rcases openForWrite_cases fs path with
        ⟨i, hi, he⟩ | ⟨-, -, he⟩ | ⟨hnone, hcount, i, hilt, hiu, hall, he⟩
      · rw [he] at hf ⊢
        exact ⟨hfull idx hf, rfl⟩
      · rw [he] at hidx
        cases hidx
      · have hno : ¬Shadows fs path path := by
          rintro ⟨-, -, a, b, ha, -⟩
          rw [hnone] at ha
          cases ha
        refine ⟨?_, (contents_openForWrite hwf hno).1⟩
        rw [he] at hf ⊢
        have hii : idx = i := by
          by_contra hii
          obtain ⟨-, hu', hp'⟩ := findFile_eq_some hf
          rw [withFile_of_ne fs path hii] at hu' hp'
          exact findFile_eq_none.mp hnone idx hlt ⟨hu', hp'⟩
        simp only [fileBlocks, hii, withFile_self]
        rfl
    refine ⟨ha.wellFormed hwf' hlt hu, hfind ▸ rfl, ?_⟩
    rw [contents_of_some hfind, ha.fileContents_eq hwf' hlt hu hopen.1, ← contents_of_some hf,
      hopen.2, hnat]

/-! ## Runs -/

theorem WriteRun.kept {path : CString} (hpath : path.length ≤ 63) {fs fs' : FileSystem}
    {w : List UInt8} (h : WriteRun path fs w fs') (hwf : WellFormed fs) :
    Kept path fs fs' ∧ contents fs' path = contents fs path ++ w ∧
      (w ≠ [] → (findFile fs' path).isSome = true) := by
  induction h with
  | done fs => exact ⟨⟨hwf, id⟩, (List.append_nil _).symm, fun h => absurd rfl h⟩
  | write hpos hfits hfull hret _ ih =>
    obtain ⟨hwf', hsome, hc⟩ := fsWrite_full hwf hpath hpos hfits hfull hret
    obtain ⟨hk, hc', -⟩ := ih hwf'
    refine ⟨⟨hk.wellFormed, fun _ => hk.exists_file hsome⟩, ?_, fun _ => hk.exists_file hsome⟩
    rw [hc', hc, List.append_assoc]
  | writeOther hq hfits hshadow _ ih =>
    obtain ⟨hk, hc⟩ := fsWrite_other hwf hq hfits hshadow
    obtain ⟨hk', hc', hw⟩ := ih hk.wellFormed
    exact ⟨⟨hk'.wellFormed, fun h => hk'.exists_file (hk.exists_file h)⟩, hc'.trans (by rw [hc]), hw⟩
  | deleteOther hq _ ih =>
    obtain ⟨hk, hc⟩ := fsDelete_other hwf hq
    obtain ⟨hk', hc', hw⟩ := ih hk.wellFormed
    exact ⟨⟨hk'.wellFormed, fun h => hk'.exists_file (hk.exists_file h)⟩, hc'.trans (by rw [hc]), hw⟩

/-- After writes that each found the last block full, reading gives the previous bytes of the
file followed by what was written. -/
theorem fsRead_after_writes {path : CString} (hpath : path.length ≤ 63) {fs fs' : FileSystem}
    (hwf : WellFormed fs) {w : List UInt8} (hrun : WriteRun path fs w fs')
    (hfile : (findFile fs path).isSome = true ∨ w ≠ []) {n : ℤ} (hn : 0 < n) :
    fsRead fs' path n = (min n (contents fs path ++ w).length,
      (contents fs path ++ w).take n.toNat) := by
  obtain ⟨hk, hc, hw⟩ := hrun.kept hpath hwf
  have hsome : (findFile fs' path).isSome = true := hfile.elim hk.exists_file hw
  obtain ⟨i, hi⟩ := Option.isSome_iff_exists.mp hsome
  rw [fsRead_eq hk.wellFormed.chains hi hn, ← contents_of_some hi, hc, List.length_take]
  congr 1
  omega

/-! ## Two runs on an empty disk -/

/-- A file system without files whose blocks are all free. -/
def emptyDisk : FileSystem where
  data _ _ := 0
  fat _ := -2
  files _ := ⟨[], 0, 0, false⟩
  fileCount := 0

theorem wellFormed_emptyDisk : WellFormed emptyDisk :=
  .of_chains (fun _ => []) (fun i _ hu => by cases hu) (fun i _ _ _ hu => by cases hu)
    fun _ _ _ => rfl

/-- A whole block is written, then another file, then two more bytes. -/
theorem fsRead_after_block_write :
    let fs₁ := (fsWrite emptyDisk "/logs/a".toList (List.replicate 64 7) 64).1
    let fs₂ := (fsWrite fs₁ "/logs/b".toList [1] 1).1
    let fs₃ := (fsWrite fs₂ "/logs/a".toList [8, 9] 2).1
    fsRead fs₃ "/logs/a".toList 66 = (66, List.replicate 64 7 ++ [8, 9]) := by
  intro fs₁ fs₂ fs₃
  have hnone : findFile emptyDisk "/logs/a".toList = none := by decide +kernel
  have hfile : findFile fs₂ "/logs/a".toList = some 0 := by decide +kernel
  have hfile₁ : findFile fs₁ "/logs/a".toList = some 0 := by decide +kernel
  have hfull₀ : LastBlockFull emptyDisk "/logs/a".toList := by
    intro idx hidx
    rw [hnone] at hidx
    cases hidx
  have hfull₂ : LastBlockFull fs₂ "/logs/a".toList := by
    intro idx hidx
    rw [hfile] at hidx
    cases hidx
    decide +kernel
  have hshadow : ¬Shadows fs₁ "/logs/a".toList "/logs/b".toList := fun h =>
    absurd h.1 (by decide +kernel)
  have hrun : WriteRun "/logs/a".toList emptyDisk (List.replicate 64 7 ++ ([8, 9] ++ [])) fs₃ :=
    .write (by decide) ⟨by decide, by decide⟩ hfull₀ (by decide +kernel)
      (.writeOther (by decide +kernel) ⟨by decide, by decide⟩ hshadow
        (.write (by decide) ⟨by decide, by decide⟩ hfull₂ (by decide +kernel) (.done fs₃)))
  have h := fsRead_after_writes (by decide +kernel) wellFormed_emptyDisk hrun (Or.inr (by simp))
    (n := 66) (by decide)
  rw [contents_of_none hnone] at h
  exact h

/-- One byte is written, then another one, and reading the two bytes gives a zero for the
second. -/
theorem fsRead_after_short_write :
    let fs₁ := (fsWrite emptyDisk "/logs/a".toList [1] 1).1
    let fs₂ := (fsWrite fs₁ "/logs/a".toList [2] 1).1
    WellFormed emptyDisk ∧ (fsWrite emptyDisk "/logs/a".toList [1] 1).2 = 1 ∧
      (fsWrite fs₁ "/logs/a".toList [2] 1).2 = 1 ∧
      fsRead fs₂ "/logs/a".toList 2 = (2, [1, 0]) ∧
      fsRead fs₂ "/logs/a".toList 2 ≠ (2, contents emptyDisk "/logs/a".toList ++ [1] ++ [2]) := by
  refine ⟨wellFormed_emptyDisk, ?_, ?_, ?_, ?_⟩ <;> decide +kernel

end FleetOS
