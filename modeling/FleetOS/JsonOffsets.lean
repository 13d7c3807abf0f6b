import FleetOS.FileDirectory
import FleetOS.Snapshots

/-!
# Which buffers are large enough

The `_to_json` functions and `fs_list` pass `buf + pos` and `bufsize - pos` to `snprintf`, and move
`pos` by the length of the formatted text, whether or not it was stored. The first text that is
cut leaves `pos` past the end, and the size argument of the next call wraps.

The largest cursor is that of the last call, the closing bracket. What stands before it has a
length that depends on the number of items, the digits of their numbers and the lengths of their
names (`fsWidth` and the others), and a function respects its buffer exactly when this is at most
the size of the buffer (`emitters_within_iff`).
-/

namespace FleetOS

open Printing

/-! ## The directory listing -/

/-- The entries that `fs_list` prints; an empty prefix, like a null pointer, selects all. -/
def listedFiles (fs : FileSystem) (pathPrefix : Option CString) : List ℕ :=
  (List.range maxFiles).filter fun i =>
    (fs.files i).used ∧ (pathPrefix.getD []).isPrefixOf (fs.files i).path

def fsListTexts (fs : FileSystem) (pathPrefix : Option CString) : List CString :=
  ["[".toList] ++ separated ((listedFiles fs pathPrefix).map fun i => fileText (fs.files i)) ++
    ["]".toList]

/-- With the number of entries that it returns. -/
def fsList (fs : FileSystem) (pathPrefix : Option CString) (bufsize : ℕ) : Buffer × ℤ :=
  (printAll bufsize (fsListTexts fs pathPrefix), (listedFiles fs pathPrefix).length)

/-! ## Widths -/

/-- The characters of `%d`. -/
def digits (v : ℤ) : ℕ := (decimal v).length

def FileEntry.width (f : FileEntry) : ℕ := 19 + f.path.length + digits f.size

def usedFiles (fs : FileSystem) : List ℕ := (List.range maxFiles).filter fun i => (fs.files i).used

def fsListWidth (fs : FileSystem) (pathPrefix : Option CString) : ℕ :=
  let l := listedFiles fs pathPrefix
  1 + ((l.map fun i => (fs.files i).width).sum + (l.length - 1))

def fsWidth (fs : FileSystem) : ℕ :=
  let l := usedFiles fs
  23 + digits fs.fileCount + ((l.map fun i => (fs.files i).width).sum + (l.length - 1))

/-- The object of a frame is put together in 64 characters. -/
def memWidth (m : PhysicalMemory) : ℕ :=
  27 + digits m.freeFrameCount +
    ((frameIndices.map fun i => min (17 + digits i + digits (m.frames i)) 63).sum +
      (frameCount - 1))

def queueWidth (s : Scheduler) (q : ReadyQueue) : ℕ :=
  (q.toList.map fun t => digits (s.tcb t).tid).sum + (q.toList.length - 1)

def schedulerWidth (s : Scheduler) : ℕ :=
  match s.schedMode with
  | .rr => 58 + digits (currentTid s) + digits s.quantumRemaining + queueWidth s s.rr
  | .mlfq =>
    86 + digits (currentTid s) + digits s.quantumRemaining + digits s.currentQueue +
      digits s.priorityBoostCount + (8 + queueWidth s (s.mlfq 0)) + (8 + queueWidth s (s.mlfq 1)) +
      (8 + queueWidth s (s.mlfq 2))

def bufferWidth (b : BoundedBuffer) : ℕ :=
  let l := List.range (min b.count ringBufferSize)
  47 + digits b.count + digits b.inPos + digits b.outPos + digits b.mutex.ownerPid +
    ((l.map fun i => digits (b.buffer ((b.outPos + i) % ringBufferSize))).sum + (l.length - 1))

def TCB.width (t : TCB) : ℕ :=
  67 + digits t.tid + (threadStateToString t.state).length + digits t.localPc +
    (blockReasonToString t.waitReason).length + digits t.burstRemaining

/-- The object of a thread is put together in 256 characters. -/
def primaryWidth (k : Kernel) (pid : ℤ) : ℕ :=
  match selectPrimaryThread k pid with
  | some t => min (k.tcb t).width 255
  | none => 10

def PCB.width (p : PCB) : ℕ :=
  168 + digits p.pid + p.name.length + (stateToString p.state).length +
    (priorityToString p.priority).length + digits p.programCounter + digits p.burstRemaining +
    digits p.waitTime + (blockReasonToString p.blockedReason).length +
    digits p.commandTicksRemaining + digits p.completionTick

def pcbWidth (k : Kernel) (p : PCB) : ℕ :=
  p.width + primaryWidth k p.pid +
    (((k.ownThreads p.pid).map fun t => min (k.tcb t).width 255).sum +
      ((k.ownThreads p.pid).length - 1))

/-! ## Texts and widths -/

theorem length_fileText (f : FileEntry) : (fileText f).length = f.width := by
  unfold fileText FileEntry.width digits
  simp only [List.length_append, String.reduceToList, List.length_cons, List.length_nil]
  omega

/-- A head and a list of items. -/
theorem length_head_separated {α : Type*} (head : CString) (l : List α) (f : α → CString) :
    ([head] ++ separated (l.map f)).flatten.length =
      head.length + ((l.map fun a => (f a).length).sum + (l.length - 1)) := by
  rw [List.flatten_append, List.length_append, List.flatten_singleton, length_separated,
    List.length_map, List.map_map]
  rfl

theorem within_fsList_iff {bufsize : ℕ} (hbuf : bufsize < 2 ^ 64) (fs : FileSystem)
    (pathPrefix : Option CString) :
    Within bufsize (fsList fs pathPrefix bufsize).1 ↔ fsListWidth fs pathPrefix ≤ bufsize := by
  rw [fsList, fsListTexts, within_append_iff hbuf, length_head_separated]
  simp only [length_fileText]
  rfl

theorem within_fsToJson_iff {bufsize : ℕ} (hbuf : bufsize < 2 ^ 64) (fs : FileSystem) :
    Within bufsize (fsToJson fs bufsize) ↔ fsWidth fs ≤ bufsize := by
  have hhead : ("\"file_count\":".toList ++ decimal fs.fileCount ++ ",\"files\":[".toList).length =
      23 + digits fs.fileCount := by
    simp only [digits, List.length_append, String.reduceToList, List.length_cons, List.length_nil]
    omega
  rw [fsToJson, fsTexts, within_append_iff hbuf, length_head_separated, hhead]
  simp only [length_fileText]
  rfl

theorem length_frameToJson (m : PhysicalMemory) (i : ℤ) :
    (frameToJson m i).text.length = min (17 + digits i + digits (m.frames i)) 63 := by
  have htext : (frameText m i).length = 17 + digits i + digits (m.frames i) := by
    unfold frameText digits
    simp only [List.length_append, String.reduceToList, List.length_cons, List.length_nil]
    omega
  rw [frameToJson, length_printAll_singleton (by decide) (by decide), htext]

theorem within_memToJson_iff {bufsize : ℕ} (hbuf : bufsize < 2 ^ 64) (m : PhysicalMemory) :
    Within bufsize (memToJson m bufsize) ↔ memWidth m ≤ bufsize := by
  have hhead : ("\"free_frames\":".toList ++ decimal m.freeFrameCount ++
      ",\"framemap\":[".toList).length = 27 + digits m.freeFrameCount := by
    simp only [digits, List.length_append, String.reduceToList, List.length_cons, List.length_nil]
    omega
  have hcount : frameIndices.length = frameCount := by decide
  rw [memToJson, memTexts, within_append_iff hbuf, length_head_separated, hhead, hcount]
  simp only [length_frameToJson]
  rfl

theorem length_queue (s : Scheduler) (q : ReadyQueue) (head : CString) :
    ([head] ++ separated (queueTids s q)).flatten.length = head.length + queueWidth s q :=
  length_head_separated head q.toList fun t => decimal (s.tcb t).tid

theorem length_levelTexts (s : Scheduler) (level : ℤ) (hl : digits level = 1) :
    (levelTexts s level).flatten.length = 8 + queueWidth s (s.mlfq level) := by
  have hhead : (",\"q".toList ++ decimal level ++ "\":[".toList).length = 7 := by
    simp only [List.length_append, String.reduceToList, List.length_cons, List.length_nil]
    unfold digits at hl
    omega
  rw [levelTexts, List.flatten_append, List.length_append, length_queue, hhead,
    List.flatten_singleton]
  simp only [String.reduceToList, List.length_cons, List.length_nil]
  omega

theorem within_schedulerToJson_iff {bufsize : ℕ} (hbuf : bufsize < 2 ^ 64) (s : Scheduler) :
    Within bufsize (schedulerToJson s bufsize) ↔ schedulerWidth s ≤ bufsize := by
  unfold schedulerToJson schedulerTexts schedulerWidth
  cases s.schedMode with
  | rr =>
    have hhead : ("\x7b\"mode\":\"RR\",\"current_tid\":".toList ++ decimal (currentTid s) ++
        ",\"quantum_remaining\":".toList ++ decimal s.quantumRemaining ++
        ",\"ready\":[".toList).length = 58 + digits (currentTid s) + digits s.quantumRemaining := by
      simp only [digits, List.length_append, String.reduceToList, List.length_cons, List.length_nil]
      omega
    dsimp only
    rw [within_append_iff hbuf, length_queue, hhead]
  | mlfq =>
    have h0 := length_levelTexts s 0 (by decide +kernel)
    have h1 := length_levelTexts s 1 (by decide +kernel)
    have h2 := length_levelTexts s 2 (by decide +kernel)
    dsimp only
    rw [within_append_iff hbuf]
    simp only [List.flatten_append, List.length_append, List.flatten_singleton, h0, h1, h2,
      String.reduceToList, List.length_cons, List.length_nil]
    unfold digits
    constructor <;> intro h <;> omega

theorem within_bufferToJson_iff {bufsize : ℕ} (hbuf : bufsize < 2 ^ 64) (b : BoundedBuffer) :
    Within bufsize (bufferToJson b bufsize) ↔ bufferWidth b ≤ bufsize := by
  have hhead : ("\x7b\"count\":".toList ++ decimal b.count ++ ",\"in\":".toList ++
      decimal b.inPos ++ ",\"out\":".toList ++ decimal b.outPos ++ ",\"mutex_owner\":".toList ++
      decimal b.mutex.ownerPid ++ ",\"items\":[".toList).length =
      47 + digits b.count + digits b.inPos + digits b.outPos + digits b.mutex.ownerPid := by
    simp only [digits, List.length_append, String.reduceToList, List.length_cons, List.length_nil]
    omega
  rw [bufferToJson, bufferTexts, itemTexts, within_append_iff hbuf, length_head_separated, hhead]
  rfl

theorem length_threadToJson (t : TCB) : (threadToJson t 256).text.length = min t.width 255 := by
  have htext : (threadText t).length = t.width := by
    unfold threadText TCB.width digits
    simp only [List.length_append, String.reduceToList, List.length_cons, List.length_nil]
    omega
  rw [threadToJson, length_printAll_singleton (by decide) (by decide), htext]

theorem length_primaryThreadToJson (k : Kernel) (pid : ℤ) :
    (primaryThreadToJson k pid 256).text.length = primaryWidth k pid := by
  have hnone : (printAll 256 ["\x7b\"tid\":-1\x7d".toList]).text.length = 10 := by decide
  unfold primaryThreadToJson primaryWidth
  cases selectPrimaryThread k pid with
  | some t => exact length_threadToJson (k.tcb t)
  | none => exact hnone

theorem length_pcbText (p : PCB) (primary : CString) :
    (pcbText p primary).length = p.width + primary.length := by
  unfold pcbText PCB.width digits
  simp only [List.length_append, String.reduceToList, List.length_cons, List.length_nil]
  omega

theorem within_pcbToJson_iff {bufsize : ℕ} (hbuf : bufsize < 2 ^ 64) (k : Kernel) (p : PCB) :
    Within bufsize (pcbToJsonWithThreads k p bufsize) ↔ pcbWidth k p ≤ bufsize := by
  rw [pcbToJsonWithThreads, pcbTexts, within_append_iff hbuf, length_head_separated,
    length_pcbText, length_primaryThreadToJson]
  simp only [length_threadToJson]
  rfl

/-- Each function respects a buffer exactly when the buffer has room for the text before its last
bracket. -/
theorem emitters_within_iff {bufsize : ℕ} (hbuf : bufsize < 2 ^ 64) :
    (∀ fs pathPrefix, Within bufsize (fsList fs pathPrefix bufsize).1 ↔
      fsListWidth fs pathPrefix ≤ bufsize) ∧
    (∀ fs, Within bufsize (fsToJson fs bufsize) ↔ fsWidth fs ≤ bufsize) ∧
    (∀ m, Within bufsize (memToJson m bufsize) ↔ memWidth m ≤ bufsize) ∧
    (∀ s, Within bufsize (schedulerToJson s bufsize) ↔ schedulerWidth s ≤ bufsize) ∧
    (∀ b, Within bufsize (bufferToJson b bufsize) ↔ bufferWidth b ≤ bufsize) ∧
    ∀ k p, Within bufsize (pcbToJsonWithThreads k p bufsize) ↔ pcbWidth k p ≤ bufsize :=
  ⟨within_fsList_iff hbuf, within_fsToJson_iff hbuf, within_memToJson_iff hbuf,
    within_schedulerToJson_iff hbuf, within_bufferToJson_iff hbuf, within_pcbToJson_iff hbuf⟩

theorem emitters_within_iff_fsInit : Within 1024 (fsToJson fsInit 1024) := by
  have hwidth : fsWidth fsInit ≤ 1024 := by decide +kernel
  exact ((emitters_within_iff (by decide)).2.1 fsInit).mpr hwidth

/-- The first text is longer than a buffer of one byte, and a full directory of long paths is
longer than the buffer of the snapshot. -/
theorem fsToJson_not_within :
    ¬Within 1 (fsToJson fsInit 1) ∧
      ¬Within 1024 (fsToJson (fsRun ("abcdefghijklm".toList.map fun c =>
        .create ('/' :: c :: List.replicate 61 'x'))) 1024) := by
  rw [within_fsToJson_iff (by decide), within_fsToJson_iff (by decide)]
  exact ⟨by decide +kernel, by decide +kernel⟩

end FleetOS
