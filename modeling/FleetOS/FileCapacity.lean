import FleetOS.FileSystem

/-!
# The capacity of a fresh file system

`fs_init` marks the blocks free with `memset(fat, -2, ..)`, which sets bytes : every entry of
the table becomes the `int` with four bytes `0xFE`, which is not `-2` (`memsetInt_neg_two`). No
block is free then and none ever gets free, since files without blocks have none to give back
(`NoFreeBlock`, kept by every call). So no write to a file system made by `fs_init` stores
anything, whatever was called before (`fsWrite_after_fsInit`).
-/

namespace FleetOS

/-- A call of the file system's interface. -/
inductive FsCall
  | create (path : CString)
  | write (path : CString) (data : List UInt8) (size : ℤ)
  | read (path : CString) (size : ℤ)
  | delete (path : CString)

def fsCall (fs : FileSystem) : FsCall → FileSystem
  | .create path => (fsCreate fs path).1
  | .write path data size => (fsWrite fs path data size).1
  | .read _ _ => fs
  | .delete path => (fsDelete fs path).1

/-- The calls after `fs_init`. -/
def fsRun (calls : List FsCall) : FileSystem := calls.foldl fsCall fsInit

/-- The blocks of a file. -/
def fileBlocks (fs : FileSystem) (idx : ℕ) : List ℤ :=
  LinkedChain.nodes fs.fat (-1) blockCount (fs.files idx).firstBlock

/-- How many blocks the chains of the used files take. -/
def occupiedBlocks (fs : FileSystem) : ℕ :=
  (((List.range maxFiles).filter fun i => (fs.files i).used).map fun i =>
    (fileBlocks fs i).length).sum

/-- A write stores as much as there is room for, and fails only if there is none. -/
def OffersCapacity (fs : FileSystem) (path : CString) (data : List UInt8) (size : ℤ) : Prop :=
  (fsWrite fs path data size).2 = min size ((blockCount - occupiedBlocks fs) * blockSize) ∨
    ((fsWrite fs path data size).2 = -1 ∧ occupiedBlocks fs = blockCount)

theorem memsetInt_neg_two : memsetInt (-2) = -16843010 := by
  decide

structure NoFreeBlock (fs : FileSystem) : Prop where
  fat : ∀ b, fs.fat b ≠ -2
  firstBlock : ∀ i, (fs.files i).used = true → (fs.files i).firstBlock = -1

theorem NoFreeBlock.findFreeBlock {fs : FileSystem} (h : NoFreeBlock fs) :
    findFreeBlock fs = -1 := by
  unfold FleetOS.findFreeBlock
  rw [List.find?_eq_none.mpr fun b _ => by simpa using h.fat b]
  rfl

theorem findFile_eq_some {fs : FileSystem} {path : CString} {i : ℕ}
    (h : findFile fs path = some i) :
    i < maxFiles ∧ (fs.files i).used = true ∧ (fs.files i).path = path := by
  have hmem := List.mem_of_find?_eq_some h
  have hp := List.find?_some h
  exact ⟨List.mem_range.mp hmem, by simpa using hp⟩

theorem NoFreeBlock.create {fs : FileSystem} (h : NoFreeBlock fs) (path : CString) :
    NoFreeBlock (fsCreate fs path).1 := by
  unfold fsCreate
  split_ifs
  · exact h
  · exact h
  · split
    · exact h
    · rename_i idx _
      refine ⟨h.fat, fun i hi => ?_⟩
      by_cases hii : i = idx
      · subst hii
        simp [setFile]
      · simp only [setFile, Function.update_of_ne hii] at hi ⊢
        exact h.firstBlock i hi

theorem NoFreeBlock.write {fs : FileSystem} (h : NoFreeBlock fs) (path : CString)
    (data : List UInt8) (size : ℤ) :
    NoFreeBlock (fsWrite fs path data size).1 ∧ (fsWrite fs path data size).2 = -1 := by
  have hopen : NoFreeBlock (openForWrite fs path).1 := by
    unfold openForWrite
    split
    · exact h
    · dsimp only
      split_ifs
      · exact h.create path
      · exact h.create path
  unfold fsWrite
  split_ifs
  · exact ⟨h, rfl⟩
  · dsimp only
    split
    · exact ⟨hopen, rfl⟩
    · rw [hopen.findFreeBlock]
      split_ifs
      · exact ⟨hopen, rfl⟩
      · exact ⟨hopen, rfl⟩
      · contradiction

theorem NoFreeBlock.delete {fs : FileSystem} (h : NoFreeBlock fs) (path : CString) :
    NoFreeBlock (fsDelete fs path).1 := by
  unfold fsDelete
  split
  · exact h
  · rename_i idx hidx
    have hfree : freeBlocks blockCount (fs.files idx).firstBlock fs = fs := by
      rw [h.firstBlock idx (findFile_eq_some hidx).2.1]
      rfl
    dsimp only
    rw [hfree]
    refine ⟨h.fat, fun i hi => ?_⟩
    by_cases hii : i = idx
    · subst hii
      simp [setFile] at hi
    · simp only [setFile, Function.update_of_ne hii] at hi ⊢
      exact h.firstBlock i hi

theorem noFreeBlock_fsInit : NoFreeBlock fsInit := by
  refine NoFreeBlock.create (NoFreeBlock.create (NoFreeBlock.create ⟨fun b => ?_, fun i hi => ?_⟩ _) _) _
  · dsimp only
    rw [memsetInt_neg_two]
    decide
  · cases hi

theorem noFreeBlock_fsRun (calls : List FsCall) : NoFreeBlock (fsRun calls) := by
  refine List.foldlRecOn calls fsCall noFreeBlock_fsInit fun fs h call _ => ?_
  cases call with
  | create path => exact h.create path
  | write path data size => exact (h.write path data size).1
  | read path size => exact h
  | delete path => exact h.delete path

theorem NoFreeBlock.occupiedBlocks {fs : FileSystem} (h : NoFreeBlock fs) :
    occupiedBlocks fs = 0 := by
  unfold FleetOS.occupiedBlocks
  refine List.sum_eq_zero fun n hn => ?_
  obtain ⟨i, hi, rfl⟩ := List.mem_map.mp hn
  have hused : (fs.files i).used = true := by simpa using (List.mem_filter.mp hi).2
  rw [fileBlocks, h.firstBlock i hused]
  rfl

/-- After `fs_init` and any calls, no write stores what there is room for. -/
theorem fsWrite_after_fsInit (calls : List FsCall) (path : CString) (data : List UInt8) {size : ℤ}
    (hsize : 1 ≤ size) (hmax : size ≤ blockCount * blockSize) :
    ¬OffersCapacity (fsRun calls) path data size := by
  have h := noFreeBlock_fsRun calls
  unfold OffersCapacity
  rw [(h.write path data size).2, h.occupiedBlocks]
  have hcap : (blockCount : ℤ) * blockSize = 4096 := by decide
  have hcount : blockCount = 64 := rfl
  rw [hcap] at hmax
  rintro (he | ⟨-, he⟩)
  · simp only [Nat.cast_zero, sub_zero, hcap] at he
    omega
  · omega

/-- One byte to a directory that `fs_init` made. -/
theorem fsWrite_after_fsInit_logs : ¬OffersCapacity (fsRun []) "/logs/".toList [0] 1 :=
  fsWrite_after_fsInit [] "/logs/".toList [0] (by decide) (by decide)

/-- One byte to a file made after `fs_init` : no block is occupied, and the call returns `-1`. -/
theorem fsWrite_created_fails :
    (findFile (fsRun [.create "/logs/a".toList]) "/logs/a".toList).isSome = true ∧
      occupiedBlocks (fsRun [.create "/logs/a".toList]) = 0 ∧
      (fsWrite (fsRun [.create "/logs/a".toList]) "/logs/a".toList [7] 1).2 = -1 ∧
      ¬OffersCapacity (fsRun [.create "/logs/a".toList]) "/logs/a".toList [7] 1 := by
  have hret : (fsWrite (fsRun [.create "/logs/a".toList]) "/logs/a".toList [7] 1).2 = -1 := by
    decide +kernel
  have hocc : occupiedBlocks (fsRun [.create "/logs/a".toList]) = 0 := by decide +kernel
  refine ⟨by decide +kernel, hocc, hret, ?_⟩
  unfold OffersCapacity
  rw [hret, hocc]
  decide

end FleetOS
