import FleetOS.BufferQueue
import FleetOS.FileCleanup
import FleetOS.ResourceHandover
import FleetOS.ResourceWaits
import FleetOS.WakeRelations

/-!
# A crash is contained

`cleanup_process` with `release_resources` takes a process out of five tables : frames, files, the
resource graph, the wait queues of the buffer and the events. From any kernel whose chains of
blocks are disjoint, whose buffer is not locked, whose resources have one unit and are not free
while someone waits (`Kernel.Orderly`), it leaves nothing of the process there, and of the others
everything but what they inherit (`Contained`).

Nothing is assumed of the scheduler, so the threads are followed one by one through the loops of
the callback and of the end of the process (`tcb_foldl`).
-/

namespace FleetOS

open ResourceGraph

/-- A kernel in which a crash is contained. -/
structure Kernel.Orderly (k : Kernel) : Prop where
  files : DisjointChains k.fs
  unlocked : k.sensorBuf.mutex.locked = false
  units : k.graph.OneUnit
  idle : ∀ r, validRid r → 0 < k.graph.available r → activeWaiters k.graph r = []

/-- From `k` to `k'` process `p` has left the kernel, and the others keep what they had and
inherit its resources. -/
structure Contained (k k' : Kernel) (p : ℕ) : Prop where
  /-- It has no frame. -/
  no_frame : ∀ i, k'.mem.frames i ≠ (k.procs p).pid
  no_page : ∀ page, (k'.procs p).pageTable page = -1
  /-- It holds nothing, asks for nothing and waits for nothing. -/
  no_resource : ∀ r, validRid r → k'.graph.allocation (k.procs p).pid r = 0 ∧
    k'.graph.request (k.procs p).pid r = 0 ∧ (k.procs p).pid ∉ k'.graph.waitPid r
  no_entry : (k.procs p).pid ∉ k'.sensorBuf.notFull.waitQueue ∧
    (k.procs p).pid ∉ k'.sensorBuf.notEmpty.waitQueue ∧
    (k.procs p).pid ∉ k'.sensorBuf.mutex.waitQueue
  no_event : ∀ i < k'.pendingCount, (k'.pending i).active = true →
    (k'.pending i).pid ≠ (k.procs p).pid
  no_log : ∀ i < maxFiles, (k'.fs.files i).used = true →
    ¬logStem (k.procs p).pid <+: (k'.fs.files i).path
  pageTable : ∀ q, q ≠ p → (k'.procs q).pageTable = (k.procs q).pageTable
  frames : ∀ i, k.mem.frames i ≠ (k.procs p).pid → k'.mem.frames i = k.mem.frames i ∧
    k'.mem.framePages i = k.mem.framePages i ∧ k'.mem.lastAccess i = k.mem.lastAccess i
  freed : ∀ i, k.mem.frames i = (k.procs p).pid → k'.mem.frames i = -1
  /-- The log files of the others are there, with their contents, and no file is new. -/
  logs : ∀ q, validPid q → q ≠ (k.procs p).pid → ∀ i < maxFiles, (k.fs.files i).used = true →
    logStem q <+: (k.fs.files i).path →
      k'.fs.files i = k.fs.files i ∧ fileContents k'.fs i = fileContents k.fs i
  reads : ∀ q, validPid q → q ≠ (k.procs p).pid → ∀ path size, logStem q <+: path →
    fsRead k'.fs path size = fsRead k.fs path size
  no_new_file : ∀ i < maxFiles, (k'.fs.files i).used = true → (k.fs.files i).used = true
  events : k'.pendingCount = k.pendingCount ∧
    ∀ i, (k.pending i).pid ≠ (k.procs p).pid → k'.pending i = k.pending i
  /-- The other entries of the buffer's queues stay, in their order. -/
  notFull : k'.sensorBuf.notFull.waitQueue =
    k.sensorBuf.notFull.waitQueue.filter fun q => q ≠ (k.procs p).pid ∧ 0 ≤ q
  notEmpty : k'.sensorBuf.notEmpty.waitQueue =
    k.sensorBuf.notEmpty.waitQueue.filter fun q => q ≠ (k.procs p).pid ∧ 0 ≤ q
  mutex : k'.sensorBuf.mutex.waitQueue =
    k.sensorBuf.mutex.waitQueue.filter fun q => q ≠ (k.procs p).pid ∧ 0 ≤ q
  /-- The other active waiters stay queued, in their order, but for the first one of a resource
  that the process held : that one is given the resource, and its threads are resumed. -/
  waitPid : ∀ r, validRid r → k'.graph.waitPid r =
    if (heir k.graph (k.procs p).pid r).isSome then (otherWaiters k.graph (k.procs p).pid r).tail
    else otherWaiters k.graph (k.procs p).pid r
  allocation : ∀ q r, q ≠ (k.procs p).pid → validRid r → k'.graph.allocation q r =
    k.graph.allocation q r + if heir k.graph (k.procs p).pid r = some q then 1 else 0
  request : ∀ q r, q ≠ (k.procs p).pid → validRid r → k'.graph.request q r =
    if heir k.graph (k.procs p).pid r = some q then 0 else k.graph.request q r
  resumed : ∀ r q, validRid r → heir k.graph (k.procs p).pid r = some q → ∀ t < k.threadCount,
    (k.tcb t).ownerPid = q → (k.tcb t).state = .blocked → (k.tcb t).waitReason = .resourceWait →
      (k'.tcb t).state = .ready
  threads : ∀ t, (k.tcb t).ownerPid ≠ (k.procs p).pid → k'.tcb t = k.tcb t ∨
    (k.tcb t).state = .blocked ∧ (k.tcb t).waitReason = .resourceWait ∧
      ∃ r, validRid r ∧ heir k.graph (k.procs p).pid r = some (k.tcb t).ownerPid

/-! ## The threads -/

/-- A loop that changes one thread at a time, where a condition holds of it. -/
theorem tcb_foldl {f : Kernel → ℕ → Kernel} {C D : TCB → Prop} [DecidablePred C]
    (hother : ∀ k t u, C (k.tcb t) → u ≠ t → (f k t).tcb u = k.tcb u)
    (hself : ∀ k t, C (k.tcb t) → D ((f k t).tcb t)) (hdone : ∀ c, D c → ¬C c) (t : ℕ) :
    ∀ (l : List ℕ) (k : Kernel),
      (t ∈ l ∧ C (k.tcb t) → D ((l.foldl (fun k t => if C (k.tcb t) then f k t else k) k).tcb t)) ∧
      (¬(t ∈ l ∧ C (k.tcb t)) →
        (l.foldl (fun k t => if C (k.tcb t) then f k t else k) k).tcb t = k.tcb t)
  | [], k => ⟨fun h => absurd h.1 List.not_mem_nil, fun _ => rfl⟩
  | u :: l, k => by
    rw [List.foldl_cons]
    set k₁ := if C (k.tcb u) then f k u else k with hk₁
    obtain ⟨hin, hout⟩ := tcb_foldl hother hself hdone t l k₁
    by_cases htu : t = u ∧ C (k.tcb u)
    · obtain ⟨rfl, hC⟩ := htu
      have hD : D (k₁.tcb t) := by
        rw [hk₁, if_pos hC]
        exact hself k t hC
      refine ⟨fun _ => ?_, fun h => absurd ⟨List.mem_cons_self, hC⟩ h⟩
      rw [hout fun h => hdone _ hD h.2]
      exact hD
    · have hsame : k₁.tcb t = k.tcb t := by
        rw [hk₁]
        split_ifs with hC
        · exact hother k u t hC fun he => htu ⟨he, hC⟩
        · rfl
      rw [hsame] at hin hout
      have hmem : t ∈ u :: l ∧ C (k.tcb t) → t ∈ l ∧ C (k.tcb t) := by
        rintro ⟨hm, hC⟩
        refine ⟨(List.mem_cons.mp hm).resolve_left fun he => htu ⟨he, he ▸ hC⟩, hC⟩
      exact ⟨fun h => hin (hmem h), fun h => hout fun h' => h ⟨List.mem_cons_of_mem u h'.1, h'.2⟩⟩

/-- The callback resumes the threads that wait for a resource, and no others. -/
theorem tcb_deadlockWakeCallback (k : Kernel) (pid : ℤ) (t : ℕ) :
    (t ∈ servedBy k [pid] → ((deadlockWakeCallback k pid).tcb t).state = .ready) ∧
      (t ∉ servedBy k [pid] → (deadlockWakeCallback k pid).tcb t = k.tcb t) := by
  have hmem : t ∈ servedBy k [pid] ↔ t ∈ k.threads ∧ (k.tcb t).ownerPid = pid ∧
      (k.tcb t).state = .blocked ∧ (k.tcb t).waitReason = .resourceWait := by
    rw [mem_threads, ← List.mem_singleton]
    rfl
  rw [hmem]
  refine tcb_foldl (f := fun k t => serveThread k pid t)
    (C := fun c => c.ownerPid = pid ∧ c.state = .blocked ∧ c.waitReason = .resourceWait)
    (D := fun c => c.state = .ready) (fun k t u hC hu => ?_) (fun k t hC => ?_) (fun c hD hC => ?_) t
    k.threads k
  · exact (Scheduler.setTcb_of_ne _ hu _).trans ((tcb_unblockThread hC.2.1).1 u hu)
  · obtain ⟨-, l, he⟩ := tcb_unblockThread hC.2.1
    have hself : (serveThread k pid t).tcb t = TCB.advance ((unblockThread k t).tcb t) :=
      Scheduler.setTcb_self _ _ _
    rw [hself, he]
    rfl
  · rw [hC.2.1] at hD
    cases hD

theorem tcb_callbacks (t : ℕ) : ∀ (pids : List ℤ) (k : Kernel),
    (t ∈ servedBy k pids → ((pids.foldl deadlockWakeCallback k).tcb t).state = .ready) ∧
      (t ∉ servedBy k pids → (pids.foldl deadlockWakeCallback k).tcb t = k.tcb t)
  | [], k => ⟨fun h => absurd h.2.1 List.not_mem_nil, fun _ => rfl⟩
  | pid :: pids, k => by
    rw [List.foldl_cons]
    obtain ⟨hin, hout⟩ := tcb_deadlockWakeCallback k pid t
    obtain ⟨hin', hout'⟩ := tcb_callbacks t pids (deadlockWakeCallback k pid)
    have hn := (steady_deadlockWakeCallback k pid).threadCount
    by_cases hs : t ∈ servedBy k [pid]
    · have hready := hin hs
      have hnot : t ∉ servedBy (deadlockWakeCallback k pid) pids := by
        rintro ⟨-, -, hb, -⟩
        rw [hb] at hready
        cases hready
      have hmem : t ∈ servedBy k (pid :: pids) :=
        ⟨hs.1, List.mem_cons.mpr (Or.inl (List.mem_singleton.mp hs.2.1)), hs.2.2⟩
      refine ⟨fun _ => ?_, fun h => absurd hmem h⟩
      rw [hout' hnot]
      exact hready
    · have hsame := hout hs
      have hmem : t ∈ servedBy (deadlockWakeCallback k pid) pids ↔ t ∈ servedBy k (pid :: pids) := by
        simp only [servedBy, Set.mem_ofPred_eq, hn, hsame, List.mem_cons]
        refine and_congr_right fun ht => ⟨fun h => ⟨Or.inr h.1, h.2⟩, fun h => ⟨?_, h.2⟩⟩
        exact h.1.resolve_left fun ho => hs ⟨ht, List.mem_singleton.mpr ho, h.2⟩
      rw [← hsame, ← hmem]
      exact ⟨hin', hout'⟩

/-- No thread changes hands. -/
def SameOwners (k k' : Kernel) : Prop := ∀ t, (k'.tcb t).ownerPid = (k.tcb t).ownerPid

theorem callbackRelation_sameOwners : CallbackRelation SameOwners := by
  refine ⟨⟨fun h h' t => (h' t).trans (h t), fun h t => ?_⟩, fun {k _ t} _ hb _ u => ?_⟩
  · rw [Kernel.tcb, h.sched]
    rfl
  · obtain ⟨hother, l, he⟩ := tcb_unblockThread hb
    unfold serveThread
    rw [Kernel.tcb, Kernel.setTcb]
    by_cases hu : u = t
    · rw [hu, Scheduler.setTcb_self]
      have ho := congrArg TCB.ownerPid he
      exact ho
    · rw [Scheduler.setTcb_of_ne _ hu]
      exact congrArg TCB.ownerPid (hother u hu)

theorem tcb_endThreads (k : Kernel) {pid : ℤ} {t : ℕ} (h : (k.tcb t).ownerPid ≠ pid) :
    (endThreads k pid).tcb t = k.tcb t :=
  (tcb_foldl (f := fun k t => k.setTcb t fun c => { c with state := .done })
    (C := fun c => c.ownerPid = pid ∧ c.state ≠ .done) (D := fun c => c.state = .done)
    (fun k t u _ hu => by rw [Kernel.tcb, Kernel.setTcb, Scheduler.setTcb_of_ne _ hu]; rfl)
    (fun k t _ => by rw [Kernel.tcb, Kernel.setTcb, Scheduler.setTcb_self])
    (fun c hD hC => hC.2 hD) t k.threads k).2 fun hC => h hC.2.1

/-! ## The tables -/

variable {k : Kernel}

/-- What the release of the resources leaves of the files, the pages and the frames. -/
theorem releaseResources_tables (k : Kernel) (pid : ℤ) :
    (releaseResources k pid).fs = fsCleanupProcess k.fs pid ∧ (releaseResources k pid).mem = k.mem ∧
      ∀ q, ((releaseResources k pid).procs q).pid = (k.procs q).pid ∧
        ((releaseResources k pid).procs q).pageTable = (k.procs q).pageTable := by
  have hw := steady_applyWoken k (wakeAllWaiters (deadlockCleanupProcess k.graph pid))
  refine ⟨?_, hw.mem, fun q => ⟨hw.pid q, ?_⟩⟩
  · unfold releaseResources
    dsimp only
    rw [hw.rest]
  · have ht := congrArg PCB.pageTable (hw.procs q)
    exact ht

theorem fs_cleanupProcess (k : Kernel) (p : ℕ) :
    (cleanupProcess k p true).fs = fsCleanupProcess k.fs (k.procs p).pid := by
  rw [cleanupProcess_eq, if_pos rfl, (steady_endThreads _ _).rest]
  exact (releaseResources_tables (withdraw k (k.procs p).pid) _).1

theorem mem_cleanupProcess (k : Kernel) (p : ℕ) :
    (cleanupProcess k p true).mem = (memFreeProcess k.mem (k.procs p)).1 := by
  obtain ⟨-, hmem, hprocs⟩ := releaseResources_tables (withdraw k (k.procs p).pid) (k.procs p).pid
  have hpid := (hprocs p).1
  rw [cleanupProcess_eq, if_pos rfl, (steady_endThreads _ _).mem]
  change (memFreeProcess _ _).1 = _
  rw [hmem]
  simp only [memFreeProcess, hpid]
  rfl

theorem pageTable_cleanupProcess (k : Kernel) (p q : ℕ) :
    ((cleanupProcess k p true).procs q).pageTable =
      if q = p then fun _ => -1 else (k.procs q).pageTable := by
  obtain ⟨-, -, hprocs⟩ := releaseResources_tables (withdraw k (k.procs p).pid) (k.procs p).pid
  rw [cleanupProcess_eq, if_pos rfl]
  set k₁ := releaseResources (withdraw k (k.procs p).pid) (k.procs p).pid
  have hend := congrArg PCB.pageTable ((steady_endThreads (terminate k₁ p) (k.procs p).pid).procs q)
  refine hend.trans ?_
  dsimp only
  split_ifs with hq
  · rw [hq]
    simp [terminate, setProc_self, memFreeProcess, pcbSetState]
  · rw [terminate_procs_of_ne k₁ hq]
    exact (hprocs q).2

theorem tcb_cleanupProcess {p t : ℕ} (h : (k.tcb t).ownerPid ≠ (k.procs p).pid) :
    (t ∈ servedBy k (wakeAllWaiters (deadlockCleanupProcess k.graph (k.procs p).pid)).2 →
        ((cleanupProcess k p true).tcb t).state = .ready) ∧
      (t ∉ servedBy k (wakeAllWaiters (deadlockCleanupProcess k.graph (k.procs p).pid)).2 →
        (cleanupProcess k p true).tcb t = k.tcb t) := by
  rw [cleanupProcess_eq, if_pos rfl]
  set r := wakeAllWaiters (deadlockCleanupProcess k.graph (k.procs p).pid) with hr
  have hcall := tcb_callbacks t r.2 { withdraw k (k.procs p).pid with graph := r.1 }
  have howner : ((releaseResources (withdraw k (k.procs p).pid) (k.procs p).pid).tcb t).ownerPid ≠
      (k.procs p).pid := by
    rw [callbackRelation_sameOwners.releaseResources (withdraw k (k.procs p).pid) _ t]
    exact h
  have hend : (endThreads (terminate (releaseResources (withdraw k (k.procs p).pid) (k.procs p).pid) p)
      (k.procs p).pid).tcb t = (r.2.foldl deadlockWakeCallback
        { withdraw k (k.procs p).pid with graph := r.1 }).tcb t := tcb_endThreads _ howner
  rw [hend]
  exact hcall

/-- With the mutex free nothing but the entries of the process goes from the buffer. -/
theorem sensorBuf_cleanupProcess (h : k.sensorBuf.mutex.locked = false) (p : ℕ) :
    (cleanupProcess k p true).sensorBuf = bufferRemovePid k.sensorBuf (k.procs p).pid := by
  rw [(cleanedUp_cleanupProcess k p true).sensorBuf, bufferReleaseMutex, if_neg]
  rintro ⟨hl, -⟩
  have hl : k.sensorBuf.mutex.locked = true := hl
  rw [h] at hl
  cases hl

theorem not_mem_removePid (queue : List ℤ) (pid : ℤ) : pid ∉ removePid queue pid := by
  intro hm
  rw [removePid_eq] at hm
  exact (of_decide_eq_true (List.mem_filter.mp hm).2).1 rfl

/-! ## Containment -/

theorem mem_heirs {g : ResourceGraph} {pid q : ℤ} :
    (q ∈ resourceIndices.flatMap fun r => (heir g pid r).toList) ↔
      ∃ r, validRid r ∧ heir g pid r = some q := by
  simp only [List.mem_flatMap, mem_resourceIndices, Option.mem_toList]

/-- A crash leaves nothing of the process in the five tables, and to the others all that they
have, with the resources that they inherit. -/
theorem contained_cleanupProcess {k : Kernel} (h : k.Orderly) {p : ℕ}
    (hp : validPid (k.procs p).pid) : Contained k (cleanupProcess k p true) p := by
  have hc := cleanedUp_cleanupProcess k p true
  have hframes := fun i => congrFun hc.frames i
  have hbuf := sensorBuf_cleanupProcess h.unlocked p
  have hg : (cleanupProcess k p true).graph =
      (wakeAllWaiters (deadlockCleanupProcess k.graph (k.procs p).pid)).1 := by
    rw [graph_cleanupProcess, if_pos rfl]
  obtain ⟨hi, hwoken⟩ := inherited_wakeAllWaiters h.units h.idle hp
  have hfs := swept_fsCleanupProcess h.files hp
  rw [← fs_cleanupProcess] at hfs
  have hkept : ∀ q, validPid q → q ≠ (k.procs p).pid → ∀ {path : CString}, logStem q <+: path →
      ¬logStem (k.procs p).pid <+: path := fun q hq hne _ => not_logStem_of_logStem hp hq hne.symm
  constructor
  case no_frame =>
    intro i hpid
    rw [hframes] at hpid
    split_ifs at hpid with hi
    · have := hp.1
      omega
    · exact hi hpid
  case no_page =>
    intro page
    rw [pageTable_cleanupProcess, if_pos rfl]
  case no_resource => exact hg ▸ hi.cleared
  case no_entry =>
    rw [hbuf]
    exact ⟨not_mem_removePid _ _, not_mem_removePid _ _, not_mem_removePid _ _⟩
  case no_event =>
    intro i hin ha
    rw [hc.pendingCount] at hin
    rw [hc.pending] at ha ⊢
    simp only [cancelPending] at ha ⊢
    split_ifs at ha ⊢ with hcancel
    exact fun hpid => hcancel ⟨hin, ha, hpid⟩
  case no_log => exact fun i hi => hfs.gone i hi
  case pageTable =>
    intro q hq
    rw [pageTable_cleanupProcess, if_neg hq]
  case frames =>
    intro i hne
    rw [mem_cleanupProcess]
    simp only [memFreeProcess, if_neg hne, and_self]
  case freed =>
    intro i he
    rw [hframes, if_pos he]
  case logs =>
    intro q hq hne i hi hu hpath
    have hu' := hfs.spared i hi hu (hkept q hq hne hpath)
    have hsame := (hfs.kept i hi hu').2
    exact ⟨hsame.entry, hsame.fileContents_eq h.files hi hu⟩
  case reads =>
    intro q hq hne path size hpath
    exact hfs.fsRead_eq h.files (hkept q hq hne hpath) size
  case no_new_file => exact fun i hi hu => (hfs.kept i hi hu).1
  case events =>
    refine ⟨hc.pendingCount, fun i hne => ?_⟩
    rw [hc.pending]
    exact if_neg fun hcancel => hne hcancel.2.2
  case notFull =>
    rw [hbuf]
    exact removePid_eq _ _
  case notEmpty =>
    rw [hbuf]
    exact removePid_eq _ _
  case mutex =>
    rw [hbuf]
    exact removePid_eq _ _
  case waitPid => exact hg ▸ hi.waitPid
  case allocation => exact hg ▸ hi.allocation
  case request => exact hg ▸ hi.request
  case resumed =>
    rintro r q hr hq t ht rfl hb hreason
    have howner : (k.tcb t).ownerPid ≠ (k.procs p).pid := fun he => heir_ne (he ▸ hq)
    refine (tcb_cleanupProcess howner).1 ⟨ht, ?_, hb, hreason⟩
    rw [hwoken]
    exact mem_heirs.mpr ⟨r, hr, hq⟩
  case threads =>
    intro t howner
    by_cases hs : t ∈ servedBy k
        (wakeAllWaiters (deadlockCleanupProcess k.graph (k.procs p).pid)).2
    · obtain ⟨-, hq, hb, hreason⟩ := hs
      rw [hwoken] at hq
      exact Or.inr ⟨hb, hreason, mem_heirs.mp hq⟩
    · exact Or.inl ((tcb_cleanupProcess howner).2 hs)

/-- Process 2 crashes while process 3 waits for its channel. -/
theorem contained_cleanupProcess_queued :
    let k := (machineRun (kernelInit .zero ⟨.rr, 0, true, false⟩ queuedWorkload) 32).1
    (k.graph.waitPid resourceCommChannel = [3] ∧ (k.tcb 1).state = .blocked) ∧
      (cleanupProcess k 0 true).graph.allocation 3 resourceCommChannel = 1 ∧
      ((cleanupProcess k 0 true).tcb 1).state = .ready := by
  intro k
  -- the three directories of `fs_init`
  have hfiles : ∀ i < maxFiles, (k.fs.files i).used = true →
      (k.fs.files i).firstBlock = -1 ∧ fileBlocks k.fs i = [] := by decide +kernel
  have hunit : ∀ r ∈ resourceIndices, k.graph.available r + k.graph.heldUnits r = 1 ∧
      0 ≤ k.graph.available r ∧ (∀ p ∈ pidIndices, 0 ≤ k.graph.allocation p r) ∧
      (0 < k.graph.available r → activeWaiters k.graph r = []) := by decide +kernel
  have hpid : (k.procs 0).pid = 2 := by decide +kernel
  have hcol : k.graph.allocation 3 resourceCommChannel = 0 ∧
      heir k.graph 2 resourceCommChannel = some 3 := by decide +kernel
  have hthread : 1 < k.threadCount ∧ (k.tcb 1).ownerPid = 3 ∧
      (k.tcb 1).waitReason = .resourceWait := by decide +kernel
  have hblocked : (k.tcb 1).state = .blocked := by decide +kernel
  have horderly : k.Orderly := by
    refine ⟨⟨fun i hi hu => ?_, fun i hi _ _ hu _ _ b hb => ?_⟩, by decide +kernel, ⟨?_, ?_, ?_⟩, ?_⟩
    · obtain ⟨hfirst, hblocks⟩ := hfiles i hi hu
      rw [hblocks]
      exact ⟨hfirst, fun b hb => absurd hb List.not_mem_nil⟩
    · rw [(hfiles i hi hu).2] at hb
      exact absurd hb List.not_mem_nil
    · exact fun r hr => (hunit r (mem_resourceIndices.mpr hr)).1
    · exact fun r hr => (hunit r (mem_resourceIndices.mpr hr)).2.1
    · exact fun p r hp hr => (hunit r (mem_resourceIndices.mpr hr)).2.2.1 p (mem_pidIndices.mpr hp)
    · exact fun r hr => (hunit r (mem_resourceIndices.mpr hr)).2.2.2
  have hrid : validRid resourceCommChannel := by decide
  have h := contained_cleanupProcess (p := 0) horderly (by rw [hpid]; decide)
  refine ⟨⟨by decide +kernel, hblocked⟩, ?_, ?_⟩
  · rw [h.allocation 3 resourceCommChannel (by rw [hpid]; decide) hrid, hpid, hcol.2, hcol.1]
    rfl
  · exact h.resumed resourceCommChannel 3 hrid (hpid ▸ hcol.2) 1 hthread.1 hthread.2.1 hblocked
      hthread.2.2

end FleetOS
