import FleetOS.LinkedChain
import FleetOS.Process

/-!
# The file system

`filesystem.c` : a directory of files, and 64 blocks of 64 bytes that the file allocation table
links into chains. The table and the blocks are functions of the block number, the directory
of the entry's index.

A null `data` or `buf` pointer is a call with size `0` : both return `-1` at once. A path is a
whole C string, a stored path its first 63 characters. `fs_to_json` is in `Snapshots` and
`fs_list` in `JsonOffsets`.
-/

namespace FleetOS

def blockSize : ℕ := 64
def blockCount : ℕ := 64
def maxFiles : ℕ := 16

structure FileEntry where
  path : CString
  firstBlock : ℤ
  size : ℕ
  used : Bool

structure FileSystem where
  data : ℤ → ℕ → UInt8
  /-- The next block of a chain, `-1` at its end, `-2` for a free block. -/
  fat : ℤ → ℤ
  files : ℕ → FileEntry
  fileCount : ℤ

/-- The value of a 32-bit `int` computed without regard to its range. -/
def wrapInt (v : ℤ) : ℤ := v.bmod (2 ^ 32)

/-- The `int` whose four bytes `memset` has set to `c`. -/
def memsetInt (c : ℤ) : ℤ :=
  let byte := c % 256
  wrapInt (byte + 256 * byte + 65536 * byte + 16777216 * byte)

def blockIndices : List ℤ := (List.range blockCount).map fun i : ℕ => (i : ℤ)

def setFat (fs : FileSystem) (blk v : ℤ) : FileSystem :=
  { fs with fat := Function.update fs.fat blk v }

def setFile (fs : FileSystem) (idx : ℕ) (f : FileEntry → FileEntry) : FileSystem :=
  { fs with files := Function.update fs.files idx (f (fs.files idx)) }

/-! ## Searching -/

/-- The lowest free block, `-1` if there is none. -/
def findFreeBlock (fs : FileSystem) : ℤ :=
  (blockIndices.find? fun i => fs.fat i = -2).getD (-1)

def findFile (fs : FileSystem) (path : CString) : Option ℕ :=
  (List.range maxFiles).find? fun i => (fs.files i).used ∧ (fs.files i).path = path

/-- The first directory entry that is not used. -/
def findUnused (fs : FileSystem) : Option ℕ :=
  (List.range maxFiles).find? fun i => !(fs.files i).used

/-! ## Operations -/

def fsCreate (fs : FileSystem) (path : CString) : FileSystem × ℤ :=
  if maxFiles ≤ fs.fileCount then (fs, -1)
  else if (findFile fs path).isSome then (fs, 0)
  else
    match findUnused fs with
    | none => (fs, -1)
    | some idx =>
      ({ setFile fs idx fun _ => ⟨path.take 63, -1, 0, true⟩ with fileCount := fs.fileCount + 1 }, 0)

/-- `fs_init`. Every byte of the file system is set, so nothing is left of the one before. -/
def fsInit : FileSystem :=
  let fs : FileSystem :=
    { data := fun _ _ => 0
      fat := fun _ => memsetInt (-2)
      files := fun _ => ⟨[], 0, 0, false⟩
      fileCount := 0 }
  let fs := (fsCreate fs "/missions/".toList).1
  let fs := (fsCreate fs "/logs/".toList).1
  (fsCreate fs "/config/".toList).1

/-- Copy `chunk` bytes of `src` to the start of a block. -/
def copyToBlock (fs : FileSystem) (blk : ℤ) (src : List UInt8) (chunk : ℕ) : FileSystem :=
  { fs with
    data := Function.update fs.data blk fun o => if o < chunk then src.getD o 0 else fs.data blk o }

/-- The loop of `fs_write` over the blocks that are left, with the number of bytes written. -/
def writeBlocks (data : List UInt8) (size : ℕ) :
    ℕ → FileSystem → ℤ → ℤ → ℕ → FileSystem × ℕ
  | 0, fs, _, _, written => (fs, written)
  | rest + 1, fs, prevBlock, currentBlock, written =>
    if size ≤ written then (fs, written)
    else
      let chunk := if blockSize < size - written then blockSize else size - written
      let fs := copyToBlock fs currentBlock (data.drop written) chunk
      let written := written + chunk
      let fs := if 0 ≤ prevBlock then setFat fs prevBlock currentBlock else fs
      let fs := setFat fs currentBlock (-1)
      if 0 < rest then
        let next := findFreeBlock fs
        if next < 0 then (fs, written)
        else writeBlocks data size rest fs currentBlock next written
      else (fs, written)

/-- The walk to the end of a chain. A chain has at most `BLOCK_COUNT` blocks. -/
def lastBlock (fs : FileSystem) (blk : ℤ) : ℤ := LinkedChain.lastNode fs.fat (-1) blockCount blk

/-- The second half of `fs_write`, once the file and the first free block are found. -/
def writeFile (fs : FileSystem) (idx : ℕ) (data : List UInt8) (size totalBlocks firstBlock : ℤ) :
    FileSystem × ℤ :=
  let (fs, written) := writeBlocks data size.toNat totalBlocks.toNat fs (-1) firstBlock 0
  let fs :=
    if (fs.files idx).firstBlock < 0 then setFile fs idx fun f => { f with firstBlock := firstBlock }
    else setFat fs (lastBlock fs (fs.files idx).firstBlock) firstBlock
  (setFile fs idx fun f => { f with size := f.size + written }, written)

/-- The file to write to, made if it does not exist. -/
def openForWrite (fs : FileSystem) (path : CString) : FileSystem × Option ℕ :=
  match findFile fs path with
  | some idx => (fs, some idx)
  | none =>
    let (fs, ret) := fsCreate fs path
    if ret < 0 then (fs, none) else (fs, findFile fs path)

def fsWrite (fs : FileSystem) (path : CString) (data : List UInt8) (size : ℤ) : FileSystem × ℤ :=
  if size ≤ 0 then (fs, -1)
  else
    let (fs, idx) := openForWrite fs path
    match idx with
    | none => (fs, -1)
    | some idx =>
      let totalBlocks := (wrapInt (size + blockSize - 1)).tdiv blockSize
      if blockCount < totalBlocks then (fs, -1)
      else
        let firstBlock := findFreeBlock fs
        if firstBlock < 0 then (fs, -1)
        else writeFile fs idx data size totalBlocks firstBlock

/-- The bytes of a block. -/
def blockBytes (fs : FileSystem) (blk : ℤ) : List UInt8 := (List.range blockSize).map (fs.data blk)

/-- The loop of `fs_read`, with the bytes read so far. -/
def readBlocks (fs : FileSystem) (fileSize size : ℕ) : ℕ → ℤ → List UInt8 → List UInt8
  | 0, _, buf => buf
  | fuel + 1, blk, buf =>
    if blk = -1 ∨ size ≤ buf.length then buf
    else
      let chunk := min (min (size - buf.length) blockSize) (fileSize - buf.length)
      readBlocks fs fileSize size fuel (fs.fat blk) (buf ++ (blockBytes fs blk).take chunk)

/-- The number of bytes read and the bytes. -/
def fsRead (fs : FileSystem) (path : CString) (size : ℤ) : ℤ × List UInt8 :=
  if size ≤ 0 then (-1, [])
  else
    match findFile fs path with
    | none => (-1, [])
    | some idx =>
      let buf := readBlocks fs (fs.files idx).size size.toNat blockCount (fs.files idx).firstBlock []
      (buf.length, buf)

/-- The loop of `fs_delete` : free and clear the blocks of a chain. -/
def freeBlocks : ℕ → ℤ → FileSystem → FileSystem
  | 0, _, fs => fs
  | fuel + 1, blk, fs =>
    if blk = -1 then fs
    else
      let next := fs.fat blk
      let fs := setFat fs blk (-2)
      freeBlocks fuel next { fs with data := Function.update fs.data blk fun _ => 0 }

def fsDelete (fs : FileSystem) (path : CString) : FileSystem × ℤ :=
  match findFile fs path with
  | none => (fs, -1)
  | some idx =>
    let fs := freeBlocks blockCount (fs.files idx).firstBlock fs
    let fs := setFile fs idx fun f => { f with used := false, path := [] }
    ({ fs with fileCount := fs.fileCount - 1 }, 0)

/-- `fs_cleanup_process` : delete the log files of a process. -/
def fsCleanupProcess (fs : FileSystem) (pid : ℤ) : FileSystem :=
  let stem := ("/logs/drone_" ++ toString pid ++ "_").toList.take 31
  (List.range maxFiles).foldl
    (fun fs i =>
      if (fs.files i).used ∧ stem.isPrefixOf (fs.files i).path then (fsDelete fs (fs.files i).path).1
      else fs)
    fs

end FleetOS
