import FleetOS.FileChains
import FleetOS.Kernel
import FleetOS.Printing

/-!
# Snapshots

Part 9 of the tick loop prints the state as a JSON object into a buffer of 16384 characters.
The parts of the object come from the `_to_json` functions, each with a buffer of its own, and
the object of a process contains those of its threads. A function is the list of the texts that
its calls of `snprintf` format, printed into a buffer of the given size.

Whether anything is cut is a matter of the longest texts : a thread takes at most 113 characters
of 256, a process 630 of 2048, the files 963 of 1024, and so on (`snapshotComplete_of_displayable`).
-/

namespace FleetOS

open Printing

/-! ## Names of the enumerators -/

def stateToString : ProcessState → CString
  | .new => "NEW".toList
  | .ready => "READY".toList
  | .running => "RUNNING".toList
  | .blocked => "BLOCKED".toList
  | .terminated => "TERMINATED".toList
  | .suspended => "SUSPENDED".toList

def priorityToString : Priority → CString
  | .critical => "CRITICAL".toList
  | .high => "HIGH".toList
  | .normal => "NORMAL".toList
  | .low => "LOW".toList

def blockReasonToString : BlockReason → CString
  | .none => "NONE".toList
  | .ioBlock => "IO_BLOCK".toList
  | .pageFault => "PAGE_FAULT".toList
  | .mutexWait => "MUTEX_WAIT".toList
  | .resourceWait => "RESOURCE_WAIT".toList
  | .condWait => "COND_WAIT".toList

def threadStateToString : ThreadState → CString
  | .ready => "T_READY".toList
  | .running => "T_RUNNING".toList
  | .blocked => "T_BLOCKED".toList
  | .done => "T_DONE".toList

/-! ## Threads and processes -/

def threadText (t : TCB) : CString :=
  "\x7b\"tid\":".toList ++ decimal t.tid ++ ",\"state\":\"".toList ++ threadStateToString t.state ++
    "\",\"local_pc\":".toList ++ decimal t.localPc ++ ",\"wait_reason\":\"".toList ++
    blockReasonToString t.waitReason ++ "\",\"burst_remaining\":".toList ++
    decimal t.burstRemaining ++ "\x7d".toList

def threadToJson (t : TCB) (bufsize : ℕ) : Buffer := printAll bufsize [threadText t]

/-- The threads of a process, in the order of the table. -/
def Kernel.ownThreads (k : Kernel) (pid : ℤ) : List ℕ :=
  k.threads.filter fun t => (k.tcb t).ownerPid = pid

/-- The first running thread of a process, else the first ready, blocked or done one. -/
def selectPrimaryThread (k : Kernel) (pid : ℤ) : Option ℕ :=
  let first (s : ThreadState) := (k.ownThreads pid).find? fun t => (k.tcb t).state = s
  (first .running).orElse fun _ => (first .ready).orElse fun _ =>
    (first .blocked).orElse fun _ => first .done

/-- The buffer with the primary thread. -/
def primaryThreadToJson (k : Kernel) (pid : ℤ) (bufsize : ℕ) : Buffer :=
  match selectPrimaryThread k pid with
  | some t => threadToJson (k.tcb t) bufsize
  | none => printAll bufsize ["\x7b\"tid\":-1\x7d".toList]

def pcbText (p : PCB) (primary : CString) : CString :=
  "\x7b\"pid\":".toList ++ decimal p.pid ++ ",\"name\":\"".toList ++ p.name ++
    "\",\"state\":\"".toList ++ stateToString p.state ++ "\",\"priority\":\"".toList ++
    priorityToString p.priority ++ "\",\"pc\":".toList ++ decimal p.programCounter ++
    ",\"burst_remaining\":".toList ++ decimal p.burstRemaining ++ ",\"wait_time\":".toList ++
    decimal p.waitTime ++ ",\"blocked_reason\":\"".toList ++ blockReasonToString p.blockedReason ++
    "\",\"command_ticks_remaining\":".toList ++ decimal p.commandTicksRemaining ++
    ",\"completion_tick\":".toList ++ decimal p.completionTick ++ ",\"thread\":".toList ++ primary ++
    ",\"threads\":[".toList

def pcbTexts (k : Kernel) (p : PCB) : List CString :=
  [pcbText p (primaryThreadToJson k p.pid 256).text] ++
    separated ((k.ownThreads p.pid).map fun t => (threadToJson (k.tcb t) 256).text) ++ ["]\x7d".toList]

def pcbToJsonWithThreads (k : Kernel) (p : PCB) (bufsize : ℕ) : Buffer :=
  printAll bufsize (pcbTexts k p)

/-! ## The other parts -/

def frameText (m : PhysicalMemory) (i : ℤ) : CString :=
  "\x7b\"frame\":".toList ++ decimal i ++ ",\"pid\":".toList ++ decimal (m.frames i) ++ "\x7d".toList

/-- The buffer `tmp` for one frame. -/
def frameToJson (m : PhysicalMemory) (i : ℤ) : Buffer := printAll 64 [frameText m i]

def memTexts (m : PhysicalMemory) : List CString :=
  ["\"free_frames\":".toList ++ decimal m.freeFrameCount ++ ",\"framemap\":[".toList] ++
    separated (frameIndices.map fun i => (frameToJson m i).text) ++ ["]".toList]

def memToJson (m : PhysicalMemory) (bufsize : ℕ) : Buffer := printAll bufsize (memTexts m)

/-- The tids in a ready queue. -/
def queueTids (s : Scheduler) (q : ReadyQueue) : List CString :=
  q.toList.map fun t => decimal (s.tcb t).tid

def currentTid (s : Scheduler) : ℤ :=
  match s.currentThread with
  | some t => (s.tcb t).tid
  | none => -1

def levelTexts (s : Scheduler) (level : ℤ) : List CString :=
  [",\"q".toList ++ decimal level ++ "\":[".toList] ++ separated (queueTids s (s.mlfq level)) ++
    ["]".toList]

def schedulerTexts (s : Scheduler) : List CString :=
  match s.schedMode with
  | .rr =>
    ["\x7b\"mode\":\"RR\",\"current_tid\":".toList ++ decimal (currentTid s) ++
        ",\"quantum_remaining\":".toList ++ decimal s.quantumRemaining ++ ",\"ready\":[".toList] ++
      separated (queueTids s s.rr) ++ ["]\x7d".toList]
  | .mlfq =>
    ["\x7b\"mode\":\"MLFQ\",\"current_tid\":".toList ++ decimal (currentTid s) ++
        ",\"quantum_remaining\":".toList ++ decimal s.quantumRemaining ++
        ",\"current_queue\":".toList ++ decimal s.currentQueue ++ ",\"priority_boosts\":".toList ++
        decimal s.priorityBoostCount] ++
      levelTexts s 0 ++ levelTexts s 1 ++ levelTexts s 2 ++ ["\x7d".toList]

def schedulerToJson (s : Scheduler) (bufsize : ℕ) : Buffer := printAll bufsize (schedulerTexts s)

def fileText (f : FileEntry) : CString :=
  "\x7b\"path\":\"".toList ++ f.path ++ "\",\"size\":".toList ++ decimal f.size ++ "\x7d".toList

def fsTexts (fs : FileSystem) : List CString :=
  ["\"file_count\":".toList ++ decimal fs.fileCount ++ ",\"files\":[".toList] ++
    separated (((List.range maxFiles).filter fun i => (fs.files i).used).map fun i =>
      fileText (fs.files i)) ++ ["]".toList]

def fsToJson (fs : FileSystem) (bufsize : ℕ) : Buffer := printAll bufsize (fsTexts fs)

/-- The items of the buffer, from `out` on. -/
def itemTexts (b : BoundedBuffer) : List CString :=
  (List.range (min b.count ringBufferSize)).map fun i =>
    decimal (b.buffer ((b.outPos + i) % ringBufferSize))

def bufferTexts (b : BoundedBuffer) : List CString :=
  ["\x7b\"count\":".toList ++ decimal b.count ++ ",\"in\":".toList ++ decimal b.inPos ++
      ",\"out\":".toList ++ decimal b.outPos ++ ",\"mutex_owner\":".toList ++
      decimal b.mutex.ownerPid ++ ",\"items\":[".toList] ++
    separated (itemTexts b) ++ ["]\x7d".toList]

def bufferToJson (b : BoundedBuffer) (bufsize : ℕ) : Buffer := printAll bufsize (bufferTexts b)

/-! ## The snapshot -/

/-- The processes that a snapshot shows. -/
def Kernel.shownProcs (k : Kernel) : List ℕ :=
  (List.range k.procCount).filter fun p => (k.procs p).state ≠ .terminated

def snapshotTexts (k : Kernel) : List CString :=
  ["\x7b".toList, "\"procs\":[".toList] ++
    separated (k.shownProcs.map fun p => (pcbToJsonWithThreads k (k.procs p) 2048).text) ++
    ["]".toList,
      ",\"memory\":\x7b".toList ++ (memToJson k.mem 1024).text ++ "\x7d".toList,
      ",\"scheduler\":".toList ++ (schedulerToJson k.sched 1024).text,
      ",\"filesystem\":\x7b".toList ++ (fsToJson k.fs 1024).text ++ "\x7d".toList,
      ",\"buffer\":".toList ++ (bufferToJson k.sensorBuf 512).text,
      "\x7d".toList]

def snapshot (k : Kernel) : Buffer := printAll 16384 (snapshotTexts k)

/-! ## What there is to show -/

/-- The values of a 32-bit `int`. -/
def IsInt (v : ℤ) : Prop := -2 ^ 31 ≤ v ∧ v < 2 ^ 31

instance (v : ℤ) : Decidable (IsInt v) := inferInstanceAs (Decidable (_ ∧ _))

structure TCB.Displayable (t : TCB) : Prop where
  tid : 0 ≤ t.tid ∧ t.tid < maxThreads
  localPc : IsInt t.localPc
  burstRemaining : IsInt t.burstRemaining

structure PCB.Displayable (p : PCB) : Prop where
  pid : 0 ≤ p.pid ∧ p.pid < maxProcs
  name : p.name.length ≤ 31
  programCounter : IsInt p.programCounter
  burstRemaining : IsInt p.burstRemaining
  waitTime : IsInt p.waitTime
  commandTicksRemaining : IsInt p.commandTicksRemaining
  completionTick : IsInt p.completionTick

structure Scheduler.Displayable (s : Scheduler) : Prop where
  current : ∀ t, s.currentThread = some t → (s.tcb t).Displayable
  quantumRemaining : IsInt s.quantumRemaining
  currentQueue : IsInt s.currentQueue
  priorityBoostCount : IsInt s.priorityBoostCount
  count : ∀ q ∈ [s.rr, s.mlfq 0, s.mlfq 1, s.mlfq 2], q.count ≤ maxReadyQueue
  queued : ∀ q ∈ [s.rr, s.mlfq 0, s.mlfq 1, s.mlfq 2], ∀ t ∈ q.toList, (s.tcb t).Displayable

/-- A directory of `fs_init`, or the file of an I/O write of one of the processes. -/
def KernelPath (path : CString) : Prop :=
  path ∈ ["/missions/".toList, "/logs/".toList, "/config/".toList] ∨
    ∃ pid seq : ℤ, (0 ≤ pid ∧ pid < maxProcs) ∧ IsInt seq ∧ path = logPath pid seq

structure FileSystem.Displayable (fs : FileSystem) : Prop where
  fileCount : IsInt fs.fileCount
  path : ∀ i < maxFiles, (fs.files i).used = true → KernelPath (fs.files i).path
  size : ∀ i < maxFiles, (fs.files i).used = true → (fs.files i).size ≤ blockCount * blockSize

structure BoundedBuffer.Displayable (b : BoundedBuffer) : Prop where
  count : IsInt b.count
  inPos : IsInt b.inPos
  outPos : IsInt b.outPos
  owner : IsInt b.mutex.ownerPid
  item : ∀ i < ringBufferSize, IsInt (b.buffer i)

/-- At most `MAX_PROCS` processes with at most two threads each, pids and tids in their ranges,
names of at most 31 characters, the queues within their capacity, the files of the kernel with
sizes that fit the disk, and 32-bit values everywhere else. -/
structure Kernel.Displayable (k : Kernel) : Prop where
  procCount : k.procCount ≤ maxProcs
  proc : ∀ p < k.procCount, (k.procs p).Displayable
  ownThreads : ∀ p < k.procCount, (k.ownThreads (k.procs p).pid).length ≤ 2
  thread : ∀ t < k.threadCount, (k.tcb t).Displayable
  freeFrameCount : IsInt k.mem.freeFrameCount
  frame : ∀ i ∈ frameIndices, IsInt (k.mem.frames i)
  sched : k.sched.Displayable
  fs : k.fs.Displayable
  sensorBuf : k.sensorBuf.Displayable

/-- No buffer of a snapshot is cut or overrun. -/
structure SnapshotComplete (k : Kernel) : Prop where
  thread : ∀ t < k.threadCount, Complete 256 [threadText (k.tcb t)] (threadToJson (k.tcb t) 256)
  proc : ∀ p < k.procCount,
    Complete 2048 (pcbTexts k (k.procs p)) (pcbToJsonWithThreads k (k.procs p) 2048)
  frame : ∀ i ∈ frameIndices, Complete 64 [frameText k.mem i] (frameToJson k.mem i)
  memory : Complete 1024 (memTexts k.mem) (memToJson k.mem 1024)
  scheduler : Complete 1024 (schedulerTexts k.sched) (schedulerToJson k.sched 1024)
  filesystem : Complete 1024 (fsTexts k.fs) (fsToJson k.fs 1024)
  buffer : Complete 512 (bufferTexts k.sensorBuf) (bufferToJson k.sensorBuf 512)
  snapshot : Complete 16384 (snapshotTexts k) (snapshot k)

/-! ## Lengths -/

theorem IsInt.length_le {v : ℤ} (h : IsInt v) : (decimal v).length ≤ 11 := by
  have hv : v.natAbs < 10 ^ 10 := by
    unfold IsInt at h
    norm_num at h ⊢
    omega
  exact length_decimal_le (by decide) hv

theorem length_decimal_two {v : ℤ} (h0 : 0 ≤ v) (hv : v < 100) : (decimal v).length ≤ 2 :=
  length_decimal_nonneg (by decide) h0 hv

theorem length_stateToString (s : ProcessState) : (stateToString s).length ≤ 10 := by
  cases s <;> decide

theorem length_priorityToString (p : Priority) : (priorityToString p).length ≤ 8 := by
  cases p <;> decide

theorem length_blockReasonToString (r : BlockReason) : (blockReasonToString r).length ≤ 13 := by
  cases r <;> decide

theorem length_threadStateToString (s : ThreadState) : (threadStateToString s).length ≤ 9 := by
  cases s <;> decide

variable {k : Kernel}

theorem TCB.Displayable.length_tid {t : TCB} (h : t.Displayable) : (decimal t.tid).length ≤ 2 := by
  have hm : maxThreads = 32 := rfl
  exact length_decimal_two h.tid.1 (by have := h.tid.2; omega)

theorem TCB.Displayable.length_threadText {t : TCB} (h : t.Displayable) :
    (threadText t).length ≤ 113 := by
  have htid := h.length_tid
  have hstate := length_threadStateToString t.state
  have hpc := h.localPc.length_le
  have hreason := length_blockReasonToString t.waitReason
  have hburst := h.burstRemaining.length_le
  unfold threadText
  simp only [List.length_append, String.reduceToList, List.length_cons, List.length_nil]
  omega

theorem TCB.Displayable.complete {t : TCB} (h : t.Displayable) :
    Complete 256 [threadText t] (threadToJson t 256) := by
  have hlen := h.length_threadText
  exact complete_printAll (by decide) (by simp only [List.flatten_singleton]; omega)

/-- The text of a thread ends up in its buffer as a whole. -/
theorem TCB.Displayable.length_threadToJson {t : TCB} (h : t.Displayable) :
    (threadToJson t 256).text.length ≤ 113 := by
  rw [h.complete.text, List.flatten_singleton]
  exact h.length_threadText

theorem mem_of_selectPrimaryThread {pid : ℤ} {t : ℕ} (h : selectPrimaryThread k pid = some t) :
    t ∈ k.ownThreads pid := by
  simp only [selectPrimaryThread, ← Option.or_eq_orElse, Option.or_eq_some_iff] at h
  rcases h with h | ⟨-, h | ⟨-, h | ⟨-, h⟩⟩⟩ <;> exact List.mem_of_find?_eq_some h

theorem Kernel.Displayable.length_primaryThreadToJson (h : k.Displayable) (pid : ℤ) :
    (primaryThreadToJson k pid 256).text.length ≤ 113 := by
  unfold primaryThreadToJson
  cases hs : selectPrimaryThread k pid with
  | none =>
    have hnone : (printAll 256 ["\x7b\"tid\":-1\x7d".toList]).text.length ≤ 113 := by decide
    exact hnone
  | some t =>
    have ht : t ∈ k.threads := (List.mem_filter.mp (mem_of_selectPrimaryThread hs)).1
    exact (h.thread t (List.mem_range.mp ht)).length_threadToJson

theorem PCB.Displayable.length_pcbText {p : PCB} (h : p.Displayable) {primary : CString}
    (hprimary : primary.length ≤ 113) : (pcbText p primary).length ≤ 400 := by
  have hm : maxProcs = 16 := rfl
  have hpid := length_decimal_two h.pid.1 (by have := h.pid.2; omega)
  have hname := h.name
  have hstate := length_stateToString p.state
  have hpriority := length_priorityToString p.priority
  have hpc := h.programCounter.length_le
  have hburst := h.burstRemaining.length_le
  have hwait := h.waitTime.length_le
  have hreason := length_blockReasonToString p.blockedReason
  have hticks := h.commandTicksRemaining.length_le
  have hdone := h.completionTick.length_le
  unfold pcbText
  simp only [List.length_append, String.reduceToList, List.length_cons, List.length_nil]
  omega

theorem Kernel.Displayable.length_pcbTexts (h : k.Displayable) {p : ℕ} (hp : p < k.procCount) :
    (pcbTexts k (k.procs p)).flatten.length ≤ 630 := by
  have hhead := (h.proc p hp).length_pcbText (h.length_primaryThreadToJson (k.procs p).pid)
  have hthreads : ∀ s ∈ (k.ownThreads (k.procs p).pid).map fun t => (threadToJson (k.tcb t) 256).text,
      s.length ≤ 113 := by
    intro s hs
    obtain ⟨t, ht, rfl⟩ := List.mem_map.mp hs
    exact (h.thread t (List.mem_range.mp (List.mem_filter.mp ht).1)).length_threadToJson
  have hcount := h.ownThreads p hp
  rw [← List.length_map] at hcount
  unfold pcbTexts
  exact (length_enclosed_le hhead hthreads hcount).trans (by decide)

theorem Kernel.Displayable.complete_pcb (h : k.Displayable) {p : ℕ} (hp : p < k.procCount) :
    Complete 2048 (pcbTexts k (k.procs p)) (pcbToJsonWithThreads k (k.procs p) 2048) :=
  complete_printAll (by decide) ((h.length_pcbTexts hp).trans_lt (by decide))

/-! ## The lengths of the other parts -/

theorem Kernel.Displayable.length_frameText (h : k.Displayable) {i : ℤ} (hi : i ∈ frameIndices) :
    (frameText k.mem i).length ≤ 30 := by
  obtain ⟨n, hn, rfl⟩ := List.mem_map.mp hi
  have hm : frameCount = 16 := rfl
  have hn := List.mem_range.mp hn
  have hframe := length_decimal_two (v := n) (by omega) (by omega)
  have hpid := (h.frame n hi).length_le
  unfold frameText
  simp only [List.length_append, String.reduceToList, List.length_cons, List.length_nil]
  omega

theorem Kernel.Displayable.complete_frame (h : k.Displayable) {i : ℤ} (hi : i ∈ frameIndices) :
    Complete 64 [frameText k.mem i] (frameToJson k.mem i) :=
  complete_printAll (by decide) (by
    rw [List.flatten_singleton]
    exact (h.length_frameText hi).trans_lt (by decide))

theorem Kernel.Displayable.length_memTexts (h : k.Displayable) :
    (memTexts k.mem).flatten.length ≤ 535 := by
  have hhead : ("\"free_frames\":".toList ++ decimal k.mem.freeFrameCount ++
      ",\"framemap\":[".toList).length ≤ 38 := by
    have hfree := h.freeFrameCount.length_le
    simp only [List.length_append, String.reduceToList, List.length_cons, List.length_nil]
    omega
  have hframes : ∀ s ∈ frameIndices.map fun i => (frameToJson k.mem i).text, s.length ≤ 30 := by
    intro s hs
    obtain ⟨i, hi, rfl⟩ := List.mem_map.mp hs
    rw [(h.complete_frame hi).text, List.flatten_singleton]
    exact h.length_frameText hi
  have hcount : (frameIndices.map fun i => (frameToJson k.mem i).text).length ≤ 16 := by
    rw [List.length_map]
    decide
  unfold memTexts
  exact (length_enclosed_le hhead hframes hcount).trans (by decide)

theorem Scheduler.Displayable.length_currentTid {s : Scheduler} (h : s.Displayable) :
    (decimal (currentTid s)).length ≤ 2 := by
  cases hc : s.currentThread with
  | none =>
    have hnone : currentTid s = -1 := by rw [currentTid, hc]
    rw [hnone]
    exact length_decimal_le (v := -1) (k := 1) (by decide) (by decide)
  | some t =>
    have hsome : currentTid s = (s.tcb t).tid := by rw [currentTid, hc]
    rw [hsome]
    exact (h.current t hc).length_tid

/-- A queue shows at most 32 tids of at most two digits. -/
theorem Scheduler.Displayable.length_queue {s : Scheduler} (h : s.Displayable) {q : ReadyQueue}
    (hq : q ∈ [s.rr, s.mlfq 0, s.mlfq 1, s.mlfq 2]) {head tail : CString} {n : ℕ}
    (hhead : head.length ≤ n) :
    ([head] ++ separated (queueTids s q) ++ [tail]).flatten.length ≤ n + 96 + tail.length := by
  have htids : ∀ d ∈ queueTids s q, d.length ≤ 2 := by
    intro d hd
    obtain ⟨t, ht, rfl⟩ := List.mem_map.mp hd
    exact (h.queued q hq t ht).length_tid
  have hcount : (queueTids s q).length ≤ 32 := by
    rw [queueTids, List.length_map, RingBuffer.length_toList]
    exact h.count q hq
  exact length_enclosed_le hhead htids hcount

theorem Scheduler.Displayable.length_levelTexts {s : Scheduler} (h : s.Displayable) (level : ℤ)
    (hl : 0 ≤ level ∧ level < 3) : (levelTexts s level).flatten.length ≤ 105 := by
  have hq : s.mlfq level ∈ [s.rr, s.mlfq 0, s.mlfq 1, s.mlfq 2] := by
    have hlevel : level = 0 ∨ level = 1 ∨ level = 2 := by omega
    rcases hlevel with rfl | rfl | rfl <;> simp
  have hhead : (",\"q".toList ++ decimal level ++ "\":[".toList).length ≤ 8 := by
    have hlevel := length_decimal_two hl.1 (by omega)
    simp only [List.length_append, String.reduceToList, List.length_cons, List.length_nil]
    omega
  exact (h.length_queue hq hhead).trans (by decide)

theorem Scheduler.Displayable.length_schedulerTexts {s : Scheduler} (h : s.Displayable) :
    (schedulerTexts s).flatten.length ≤ 450 := by
  have htid := h.length_currentTid
  have hquantum := h.quantumRemaining.length_le
  unfold schedulerTexts
  cases s.schedMode with
  | rr =>
    have hhead : ("\x7b\"mode\":\"RR\",\"current_tid\":".toList ++ decimal (currentTid s) ++
        ",\"quantum_remaining\":".toList ++ decimal s.quantumRemaining ++
        ",\"ready\":[".toList).length ≤ 73 := by
      simp only [List.length_append, String.reduceToList, List.length_cons, List.length_nil]
      omega
    exact (h.length_queue (by simp) hhead).trans (by decide)
  | mlfq =>
    have hhead : ("\x7b\"mode\":\"MLFQ\",\"current_tid\":".toList ++ decimal (currentTid s) ++
        ",\"quantum_remaining\":".toList ++ decimal s.quantumRemaining ++
        ",\"current_queue\":".toList ++ decimal s.currentQueue ++
        ",\"priority_boosts\":".toList ++ decimal s.priorityBoostCount).length ≤ 134 := by
      have hqueue := h.currentQueue.length_le
      have hboosts := h.priorityBoostCount.length_le
      simp only [List.length_append, String.reduceToList, List.length_cons, List.length_nil]
      omega
    have h0 := h.length_levelTexts 0 (by decide)
    have h1 := h.length_levelTexts 1 (by decide)
    have h2 := h.length_levelTexts 2 (by decide)
    have htail : "\x7d".toList.length = 1 := by decide
    dsimp only
    rw [List.flatten_append, List.flatten_append, List.flatten_append, List.flatten_append,
      List.flatten_singleton, List.flatten_singleton, List.length_append, List.length_append,
      List.length_append, List.length_append, htail]
    omega

theorem KernelPath.length_le {path : CString} (h : KernelPath path) : path.length ≤ 34 := by
  rcases h with hdir | ⟨pid, seq, ⟨h0, hp⟩, hs, rfl⟩
  · have hall : ∀ p ∈ ["/missions/".toList, "/logs/".toList, "/config/".toList], p.length ≤ 34 := by
      decide
    exact hall path hdir
  · have hm : maxProcs = 16 := rfl
    have hpid := length_decimal_two h0 (by omega)
    have hseq := hs.length_le
    have htext : logPath pid seq = ("/logs/drone_".toList ++ decimal pid ++ "_seq_".toList ++
        decimal seq ++ ".log".toList).take 63 := by
      unfold logPath decimal
      rw [String.toList_append, String.toList_append, String.toList_append, String.toList_append]
    rw [htext]
    refine (List.length_take_le' _ _).trans ?_
    simp only [List.length_append, String.reduceToList, List.length_cons, List.length_nil]
    omega

theorem FileSystem.Displayable.length_fsTexts {fs : FileSystem} (h : fs.Displayable) :
    (fsTexts fs).flatten.length ≤ 963 := by
  have hhead : ("\"file_count\":".toList ++ decimal fs.fileCount ++
      ",\"files\":[".toList).length ≤ 34 := by
    have hcount := h.fileCount.length_le
    simp only [List.length_append, String.reduceToList, List.length_cons, List.length_nil]
    omega
  have hfiles : ∀ s ∈ ((List.range maxFiles).filter fun i => (fs.files i).used).map fun i =>
      fileText (fs.files i), s.length ≤ 57 := by
    intro s hs
    obtain ⟨i, hi, rfl⟩ := List.mem_map.mp hs
    obtain ⟨hi, hu⟩ := List.mem_filter.mp hi
    have hi := List.mem_range.mp hi
    have hpath := (h.path i hi hu).length_le
    have hmax : blockCount * blockSize = 4096 := rfl
    have hsize := length_decimal_nonneg (v := (fs.files i).size) (k := 4) (by decide) (by omega) (by
      have := h.size i hi hu
      omega)
    unfold fileText
    simp only [List.length_append, String.reduceToList, List.length_cons, List.length_nil]
    omega
  have hlen : (((List.range maxFiles).filter fun i => (fs.files i).used).map fun i =>
      fileText (fs.files i)).length ≤ 16 := by
    rw [List.length_map]
    exact (List.length_filter_le _ _).trans (by decide)
  unfold fsTexts
  exact (length_enclosed_le hhead hfiles hlen).trans (by decide)

theorem BoundedBuffer.Displayable.length_bufferTexts {b : BoundedBuffer} (h : b.Displayable) :
    (bufferTexts b).flatten.length ≤ 205 := by
  have hhead : ("\x7b\"count\":".toList ++ decimal b.count ++ ",\"in\":".toList ++
      decimal b.inPos ++ ",\"out\":".toList ++ decimal b.outPos ++ ",\"mutex_owner\":".toList ++
      decimal b.mutex.ownerPid ++ ",\"items\":[".toList).length ≤ 91 := by
    have hcount := h.count.length_le
    have hin := h.inPos.length_le
    have hout := h.outPos.length_le
    have howner := h.owner.length_le
    simp only [List.length_append, String.reduceToList, List.length_cons, List.length_nil]
    omega
  have hitems : ∀ s ∈ itemTexts b, s.length ≤ 11 := by
    intro s hs
    obtain ⟨i, -, rfl⟩ := List.mem_map.mp hs
    exact (h.item _ (Nat.mod_lt _ (by decide))).length_le
  have hlen : (itemTexts b).length ≤ 8 := by
    rw [itemTexts, List.length_map, List.length_range]
    exact min_le_right _ _
  unfold bufferTexts
  exact (length_enclosed_le hhead hitems hlen).trans (by decide)

/-! ## The whole snapshot -/

theorem Kernel.Displayable.length_snapshotTexts (h : k.Displayable) :
    (snapshotTexts k).flatten.length ≤ 12400 := by
  have hprocs : ∀ s ∈ k.shownProcs.map fun p => (pcbToJsonWithThreads k (k.procs p) 2048).text,
      s.length ≤ 630 := by
    intro s hs
    obtain ⟨p, hp, rfl⟩ := List.mem_map.mp hs
    have hp := List.mem_range.mp (List.mem_filter.mp hp).1
    rw [(h.complete_pcb hp).text]
    exact h.length_pcbTexts hp
  have hlist := length_separated_le hprocs
  have hcount : k.shownProcs.length ≤ 16 :=
    (List.length_filter_le _ _).trans (by rw [List.length_range]; exact h.procCount)
  rw [List.length_map] at hlist
  have hmem : (memToJson k.mem 1024).text.length ≤ 535 := by
    rw [memToJson, (complete_printAll (by decide) (h.length_memTexts.trans_lt (by decide))).text]
    exact h.length_memTexts
  have hsched : (schedulerToJson k.sched 1024).text.length ≤ 450 := by
    rw [schedulerToJson,
      (complete_printAll (by decide) (h.sched.length_schedulerTexts.trans_lt (by decide))).text]
    exact h.sched.length_schedulerTexts
  have hfs : (fsToJson k.fs 1024).text.length ≤ 963 := by
    rw [fsToJson, (complete_printAll (by decide) (h.fs.length_fsTexts.trans_lt (by decide))).text]
    exact h.fs.length_fsTexts
  have hbuffer : (bufferToJson k.sensorBuf 512).text.length ≤ 205 := by
    rw [bufferToJson,
      (complete_printAll (by decide) (h.sensorBuf.length_bufferTexts.trans_lt (by decide))).text]
    exact h.sensorBuf.length_bufferTexts
  simp only [snapshotTexts, List.flatten_append, List.flatten_cons, List.flatten_nil,
    List.length_append, String.reduceToList, List.length_cons, List.length_nil]
  omega

theorem Kernel.Displayable.snapshotComplete (h : k.Displayable) : SnapshotComplete k where
  thread t ht := (h.thread t ht).complete
  proc p hp := h.complete_pcb hp
  frame i hi := h.complete_frame hi
  memory := complete_printAll (by decide) (h.length_memTexts.trans_lt (by decide))
  scheduler := complete_printAll (by decide) (h.sched.length_schedulerTexts.trans_lt (by decide))
  filesystem := complete_printAll (by decide) (h.fs.length_fsTexts.trans_lt (by decide))
  buffer := complete_printAll (by decide) (h.sensorBuf.length_bufferTexts.trans_lt (by decide))
  snapshot := complete_printAll (by decide) (h.length_snapshotTexts.trans_lt (by decide))

/-- Whatever there is to show, a snapshot shows all of it. -/
theorem snapshotComplete_of_displayable (h : k.Displayable) : SnapshotComplete k :=
  h.snapshotComplete

/-- The four drones at the start. -/
theorem snapshotComplete_of_displayable_drones :
    SnapshotComplete (kernelInit Kernel.zero ⟨.rr, 100, false, false⟩ droneWorkload) := by
  let k := kernelInit Kernel.zero ⟨.rr, 100, false, false⟩ droneWorkload
  have hproc : ∀ p < k.procCount, (0 ≤ (k.procs p).pid ∧ (k.procs p).pid < maxProcs) ∧
      (k.procs p).name.length ≤ 31 ∧ IsInt (k.procs p).programCounter ∧
      IsInt (k.procs p).burstRemaining ∧ IsInt (k.procs p).waitTime ∧
      IsInt (k.procs p).commandTicksRemaining ∧ IsInt (k.procs p).completionTick ∧
      (k.ownThreads (k.procs p).pid).length ≤ 2 := by decide +kernel
  have hthread : ∀ t < 8, (0 ≤ (k.tcb t).tid ∧ (k.tcb t).tid < maxThreads) ∧
      IsInt (k.tcb t).localPc ∧ IsInt (k.tcb t).burstRemaining := by decide +kernel
  have htcb : ∀ t < 8, (k.tcb t).Displayable := fun t ht =>
    ⟨(hthread t ht).1, (hthread t ht).2.1, (hthread t ht).2.2⟩
  have hcount : k.procCount ≤ maxProcs ∧ k.threadCount ≤ 8 ∧ k.sched.currentThread = none := by
    decide +kernel
  have hqueue : ∀ q ∈ [k.sched.rr, k.sched.mlfq 0, k.sched.mlfq 1, k.sched.mlfq 2],
      q.count ≤ maxReadyQueue ∧ ∀ t ∈ q.toList, t < 8 := by decide +kernel
  have hsched : IsInt k.sched.quantumRemaining ∧ IsInt k.sched.currentQueue ∧
      IsInt k.sched.priorityBoostCount := by decide +kernel
  have hmem : IsInt k.mem.freeFrameCount ∧ ∀ i ∈ frameIndices, IsInt (k.mem.frames i) := by
    decide +kernel
  have hfs : IsInt k.fs.fileCount ∧ ∀ i < maxFiles, (k.fs.files i).used = true →
      (k.fs.files i).path ∈ ["/missions/".toList, "/logs/".toList, "/config/".toList] ∧
        (k.fs.files i).size ≤ blockCount * blockSize := by decide +kernel
  have hbuf : IsInt k.sensorBuf.count ∧ IsInt k.sensorBuf.inPos ∧ IsInt k.sensorBuf.outPos ∧
      IsInt k.sensorBuf.mutex.ownerPid ∧ ∀ i < ringBufferSize, IsInt (k.sensorBuf.buffer i) := by
    decide +kernel
  refine snapshotComplete_of_displayable (k := k) ?_
  refine ⟨hcount.1, fun p hp => ?_, fun p hp => ?_, fun t ht => htcb t (ht.trans_le hcount.2.1),
    hmem.1, hmem.2, ⟨fun t ht => ?_, hsched.1, hsched.2.1, hsched.2.2, fun q hq => (hqueue q hq).1,
      fun q hq t ht => htcb t ((hqueue q hq).2 t ht)⟩,
    ⟨hfs.1, fun i hi hu => Or.inl (hfs.2 i hi hu).1, fun i hi hu => (hfs.2 i hi hu).2⟩,
    ⟨hbuf.1, hbuf.2.1, hbuf.2.2.1, hbuf.2.2.2.1, hbuf.2.2.2.2⟩⟩
  · obtain ⟨hpid, hname, hpc, hburst, hwait, hticks, hdone, -⟩ := hproc p hp
    exact ⟨hpid, hname, hpc, hburst, hwait, hticks, hdone⟩
  · exact (hproc p hp).2.2.2.2.2.2.2
  · rw [hcount.2.2] at ht
    cases ht

end FleetOS
