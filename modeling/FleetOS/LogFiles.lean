import FleetOS.CrashContainment
import FleetOS.FileDirectory
import FleetOS.ProcessTimes
import FleetOS.SlotCopies

/-!
# The files of a run

A run makes one log file for each I/O write it starts, as long as the directory has room, and the
crash of a process deletes those of the process (`EmptyFiles`). `fs_init` leaves no free block, so
no completed write stores anything : every file of every reachable state is empty, and reading
gives no byte (`files_machineRun`).
-/

namespace FleetOS

/-! ## Empty files -/

/-- A path of one of the first `seq` writes. -/
def LogPath (seq : ℤ) (path : CString) : Prop :=
  ∃ pid s, validPid pid ∧ (0 ≤ s ∧ s < seq) ∧ path = logPath pid s

def initialPaths : List CString := ["/missions/".toList, "/logs/".toList, "/config/".toList]

/-- The directories that `fs_init` makes, and log files of the first `seq` writes. -/
structure EmptyFiles (fs : FileSystem) (seq : ℤ) : Prop where
  directory : Directory fs
  noFree : NoFreeBlock fs
  data : fs.data = fun _ _ => 0
  size : ∀ i, (fs.files i).used = true → (fs.files i).size = 0
  path : ∀ i, (fs.files i).used = true →
    (fs.files i).path ∈ initialPaths ∨ LogPath seq (fs.files i).path

section files

variable {fs : FileSystem} {seq : ℤ} {path : CString}

theorem LogPath.mono (h : LogPath seq path) {seq' : ℤ} (hle : seq ≤ seq') : LogPath seq' path := by
  obtain ⟨pid, s, hpid, hs, rfl⟩ := h
  exact ⟨pid, s, hpid, ⟨hs.1, hs.2.trans_le hle⟩, rfl⟩

theorem length_logPath (pid s : ℤ) : (logPath pid s).length ≤ 63 := List.length_take_le _ _

theorem LogPath.length_le (h : LogPath seq path) : path.length ≤ 63 := by
  obtain ⟨pid, s, -, -, rfl⟩ := h
  exact length_logPath pid s

namespace EmptyFiles

theorem mono (h : EmptyFiles fs seq) {seq' : ℤ} (hle : seq ≤ seq') : EmptyFiles fs seq' :=
  ⟨h.directory, h.noFree, h.data, h.size, fun i hi => (h.path i hi).imp_right fun hp => hp.mono hle⟩

theorem create (h : EmptyFiles fs seq) (hlen : path.length ≤ 63)
    (hpath : path ∈ initialPaths ∨ LogPath seq path) : EmptyFiles (fsCreate fs path).1 seq := by
  have hdir : Directory (fsCreate fs path).1 := h.directory.create fun _ => hlen
  have hfree := h.noFree.create path
  rcases fsCreate_cases fs path with he | ⟨-, -, idx, -, -, -, he⟩
  · rw [he]
    exact h
  · rw [he] at hdir hfree ⊢
    have hentry : ∀ i, ((withFile fs idx path).files i).used = true →
        ((withFile fs idx path).files i).size = 0 ∧
          (((withFile fs idx path).files i).path ∈ initialPaths ∨
            LogPath seq ((withFile fs idx path).files i).path) := by
      intro i hi
      by_cases hidx : i = idx
      · subst hidx
        have hself : (withFile fs i path).files i = ⟨path.take 63, -1, 0, true⟩ :=
          Function.update_self _ _ _
        rw [hself, List.take_of_length_le hlen]
        exact ⟨rfl, hpath⟩
      · have hother : (withFile fs idx path).files i = fs.files i := Function.update_of_ne hidx _ _
        rw [hother] at hi ⊢
        exact ⟨h.size i hi, h.path i hi⟩
    exact ⟨hdir, hfree, h.data, fun i hi => (hentry i hi).1, fun i hi => (hentry i hi).2⟩

/-- A write fails, and makes its file at most. -/
theorem write (h : EmptyFiles fs seq) (hpath : LogPath seq path) (src : List UInt8) (size : ℤ) :
    EmptyFiles (fsWrite fs path src size).1 seq := by
  have hopen : EmptyFiles (openForWrite fs path).1 seq := by
    have hcreate := h.create hpath.length_le (Or.inr hpath)
    unfold openForWrite
    split
    · exact h
    · dsimp only
      split_ifs <;> exact hcreate
  unfold fsWrite
  split_ifs
  · exact h
  · dsimp only
    split
    · exact hopen
    · rw [hopen.noFree.findFreeBlock]
      split_ifs
      · exact hopen
      · exact hopen
      · contradiction

theorem delete (h : EmptyFiles fs seq) (path : CString) : EmptyFiles (fsDelete fs path).1 seq := by
  have hdir := (h.directory.delete path).2
  have hfree := h.noFree.delete path
  unfold fsDelete at hdir hfree ⊢
  cases hf : findFile fs path with
  | none =>
    simp only [hf] at hdir hfree ⊢
    exact h
  | some idx =>
    have hblocks : freeBlocks blockCount (fs.files idx).firstBlock fs = fs := by
      rw [h.noFree.firstBlock idx (findFile_eq_some hf).2.1]
      rfl
    simp only [hf, hblocks] at hdir hfree ⊢
    set fs' := setFile fs idx fun f => { f with used := false, path := [] }
    have hother : ∀ i, (fs'.files i).used = true → fs'.files i = fs.files i := by
      intro i hi
      by_cases hidx : i = idx
      · subst hidx
        rw [setFile_self] at hi
        cases hi
      · exact setFile_of_ne fs hidx _
    have hsize : ∀ i, (fs'.files i).used = true → (fs'.files i).size = 0 := fun i hi => by
      have he := hother i hi
      rw [he] at hi ⊢
      exact h.size i hi
    have hpath : ∀ i, (fs'.files i).used = true →
        (fs'.files i).path ∈ initialPaths ∨ LogPath seq (fs'.files i).path := fun i hi => by
      have he := hother i hi
      rw [he] at hi ⊢
      exact h.path i hi
    exact ⟨hdir, hfree, h.data, hsize, hpath⟩

theorem cleanup (h : EmptyFiles fs seq) (pid : ℤ) : EmptyFiles (fsCleanupProcess fs pid) seq :=
  fsCleanupProcess_keeps (P := fun fs => EmptyFiles fs seq) (fun _ path h => h.delete path) h pid

/-- Reading gives no byte, of a file that exists or of one that does not. -/
theorem read_eq (h : EmptyFiles fs seq) (path : CString) (size : ℤ) : (fsRead fs path size).2 = [] := by
  unfold fsRead
  split_ifs
  · rfl
  · cases hf : findFile fs path with
    | none => rfl
    | some idx =>
      dsimp only
      rw [h.noFree.firstBlock idx (findFile_eq_some hf).2.1]
      rfl

end EmptyFiles

theorem emptyFiles_fsInit : EmptyFiles fsInit 0 := by
  have hinit : EmptyFiles
      { data := fun _ _ => 0, fat := fun _ => memsetInt (-2), files := fun _ => ⟨[], 0, 0, false⟩,
        fileCount := 0 } 0 := by
    refine ⟨⟨fun i _ j _ hu => absurd hu Bool.false_ne_true,
      fun i _ hu => absurd hu Bool.false_ne_true, by decide⟩, ⟨fun b => ?_, fun i hu => ?_⟩, rfl,
      fun i hu => absurd hu Bool.false_ne_true, fun i hu => absurd hu Bool.false_ne_true⟩
    · dsimp only
      rw [memsetInt_neg_two]
      decide
    · exact absurd hu Bool.false_ne_true
  have hdir : ∀ path ∈ initialPaths, path.length ≤ 63 := by decide
  have hmake : ∀ {fs : FileSystem} {path : CString}, path ∈ initialPaths → EmptyFiles fs 0 →
      EmptyFiles (fsCreate fs path).1 0 := fun hp h => h.create (hdir _ hp) (Or.inl hp)
  exact hmake (by decide) (hmake (by decide) (hmake (by decide) hinit))

end files

/-! ## The parts of a tick -/

/-- The files, the number of writes, and what the slots of the event array hold of writes are the
same. -/
structure SameStore (k k' : Kernel) : Prop where
  fs : k'.fs = k.fs
  ioSeq : k'.ioSeq = k.ioSeq
  reason : ∀ i, (k'.pending i).reason = (k.pending i).reason
  path : ∀ i, (k'.pending i).path = (k.pending i).path

/-- Every file is empty, the events of writes name log files, and there were at most `bound`
writes. -/
structure Logged (k : Kernel) (bound : ℤ) : Prop where
  files : EmptyFiles k.fs k.ioSeq
  seq_nonneg : 0 ≤ k.ioSeq
  seq_le : k.ioSeq ≤ bound
  events : ∀ i, (k.pending i).reason = .ioBlock → LogPath k.ioSeq (k.pending i).path

section steps

variable {k k' k'' : Kernel} {b : ℤ}

theorem SameStore.of_pending (hfs : k'.fs = k.fs) (hseq : k'.ioSeq = k.ioSeq)
    (hp : k'.pending = k.pending) : SameStore k k' :=
  ⟨hfs, hseq, fun i => by rw [hp], fun i => by rw [hp]⟩

theorem SameStore.trans (h : SameStore k k') (h' : SameStore k' k'') : SameStore k k'' :=
  ⟨h'.fs.trans h.fs, h'.ioSeq.trans h.ioSeq, fun i => (h'.reason i).trans (h.reason i),
    fun i => (h'.path i).trans (h.path i)⟩

theorem Steady.sameStore (h : Steady k k') : SameStore k k' :=
  .of_pending (by rw [h.rest]) (by rw [h.rest]) h.pending

theorem Arrived.sameStore (h : Arrived k k') : SameStore k k' :=
  .of_pending (by rw [h.rest]) (by rw [h.rest]) (by rw [h.rest])

theorem Logged.same (h : Logged k b) (hs : SameStore k k') : Logged k' b := by
  refine ⟨?_, ?_, ?_, fun i hi => ?_⟩
  · rw [hs.fs, hs.ioSeq]
    exact h.files
  · rw [hs.ioSeq]
    exact h.seq_nonneg
  · rw [hs.ioSeq]
    exact h.seq_le
  · rw [hs.path, hs.ioSeq]
    rw [hs.reason] at hi
    exact h.events i hi

theorem sameStore_deactivate (k : Kernel) (i : ℕ) :
    SameStore k (k.setPending i fun e => { e with active := false }) := by
  have hslot : ∀ j, ((k.setPending i fun e => { e with active := false }).pending j).reason =
      (k.pending j).reason ∧ ((k.setPending i fun e => { e with active := false }).pending j).path =
        (k.pending j).path := by
    intro j
    by_cases hj : j = i
    · subst hj
      simp [Kernel.setPending]
    · simp [Kernel.setPending, hj]
  exact ⟨rfl, rfl, fun j => (hslot j).1, fun j => (hslot j).2⟩

theorem sameStore_withdraw (k : Kernel) (pid : ℤ) : SameStore k (withdraw k pid) := by
  refine ⟨rfl, rfl, fun i => ?_, fun i => ?_⟩ <;>
  · simp only [withdraw, cancelPending]
    split_ifs <;> rfl

theorem sameStore_cleanupProcess (k : Kernel) (p : ℕ) : SameStore k (cleanupProcess k p false) := by
  rw [cleanupProcess_eq, if_neg Bool.false_ne_true]
  have hend : SameStore (withdraw k (k.procs p).pid) (terminate (withdraw k (k.procs p).pid) p) :=
    .of_pending rfl rfl rfl
  exact ((sameStore_withdraw k _).trans hend).trans (steady_endThreads _ _).sameStore

theorem Logged.mono (h : Logged k b) {b' : ℤ} (hle : b ≤ b') : Logged k b' :=
  ⟨h.files, h.seq_nonneg, h.seq_le.trans hle, h.events⟩

theorem Logged.completeIoEvent (h : Logged k b) (i : ℕ) : Logged (completeIoEvent k i) b := by
  unfold FleetOS.completeIoEvent
  split_ifs with hdue
  · exact h
  dsimp only
  rw [Bool.not_eq_true', Bool.not_eq_false] at hdue
  have hreason : (k.pending i).reason = .ioBlock := (of_decide_eq_true hdue).2.1
  cases k.findProc (k.pending i).pid with
  | none => exact h.same (sameStore_deactivate k i)
  | some p =>
    set src := sensorData (k.pending i).pid (k.pending i).completionTick
    have hw : Logged { k with fs := (fsWrite k.fs (k.pending i).path src src.length).1 } b :=
      ⟨h.files.write (h.events i hreason) src _, h.seq_nonneg, h.seq_le, h.events⟩
    have hwake := steady_unblockOwned { k with fs := (fsWrite k.fs (k.pending i).path src src.length).1 }
      (k.pending i).pid .ioBlock
    exact hw.same (hwake.sameStore.trans (sameStore_deactivate _ i))

theorem sameStore_completePageFault (k : Kernel) (i : ℕ) : SameStore k (completePageFault k i) := by
  unfold completePageFault
  dsimp only
  split_ifs
  · exact .of_pending rfl rfl rfl
  · cases k.findProc (k.pending i).pid with
    | none => exact sameStore_deactivate k i
    | some p =>
      set r := resolvePageFault k.mem k.procs k.procCount p (k.pending i).page
      have hr : SameStore k { k with mem := r.1, procs := r.2 } := .of_pending rfl rfl rfl
      have hwake := steady_unblockOwned { k with mem := r.1, procs := r.2 } (k.procs p).pid .pageFault
      exact (hr.trans hwake.sameStore).trans (sameStore_deactivate _ i)

theorem Logged.compact (h : Logged k b) : Logged (compactPendingEvents k) b := by
  refine ⟨h.files, h.seq_nonneg, h.seq_le, fun i hi => ?_⟩
  rcases lt_or_ge i (compactPendingEvents k).pendingCount with hlt | hge
  · obtain ⟨j, -, hj, -⟩ := mem_events.mp (compact_mem k hlt)
    rw [← hj] at hi ⊢
    exact h.events j hi
  · rw [pending_compact k i hge] at hi ⊢
    exact h.events i hi

/-- The event of a write names the file that was made for it. -/
theorem Logged.registerIo (h : Logged k b) {pid : ℤ} {path : CString} (hpath : LogPath k.ioSeq path) :
    Logged (registerIo k pid path) b := by
  have hslot : ∀ i j, ((k.setPending i fun e => { e with
      pid := pid, completionTick := k.currentTick + ioDuration, reason := .ioBlock,
      path := path.take 63, active := true }).pending j).reason = .ioBlock →
      LogPath k.ioSeq ((k.setPending i fun e => { e with
        pid := pid, completionTick := k.currentTick + ioDuration, reason := .ioBlock,
        path := path.take 63, active := true }).pending j).path := by
    intro i j hj
    by_cases hji : j = i
    · subst hji
      simpa [Kernel.setPending, List.take_of_length_le hpath.length_le] using hpath
    · simp only [Kernel.setPending, Function.update_of_ne hji] at hj ⊢
      exact h.events j hj
  unfold FleetOS.registerIo
  split
  · exact h
  · dsimp only
    split_ifs <;> exact ⟨h.files, h.seq_nonneg, h.seq_le, hslot _⟩

theorem Logged.registerPageFault (h : Logged k b) (pid page : ℤ) :
    Logged (registerPageFault k pid page) b := by
  have hslot : ∀ i j, ((k.setPending i fun e => { e with
      pid := pid, completionTick := k.currentTick + pageFaultDuration, reason := .pageFault,
      page := page, active := true }).pending j).reason = .ioBlock →
      LogPath k.ioSeq ((k.setPending i fun e => { e with
        pid := pid, completionTick := k.currentTick + pageFaultDuration, reason := .pageFault,
        page := page, active := true }).pending j).path := by
    intro i j hj
    by_cases hji : j = i
    · subst hji
      simp [Kernel.setPending] at hj
    · simp only [Kernel.setPending, Function.update_of_ne hji] at hj ⊢
      exact h.events j hj
  unfold FleetOS.registerPageFault
  dsimp only
  split
  · exact ⟨h.files, h.seq_nonneg, h.seq_le, hslot _⟩
  · split_ifs
    · exact ⟨h.files, h.seq_nonneg, h.seq_le, hslot _⟩
    · exact h

/-- A command starts one write at most. -/
theorem Logged.executeIoWrite (h : Logged k b) {t : ℕ} (hpid : validPid (k.tcb t).ownerPid) :
    Logged (executeIoWrite k t) (b + 1) := by
  have hpath : LogPath (k.ioSeq + 1) (logPath (k.tcb t).ownerPid k.ioSeq) :=
    ⟨_, _, hpid, ⟨h.seq_nonneg, lt_add_one _⟩, rfl⟩
  have hle : k.ioSeq ≤ k.ioSeq + 1 := (lt_add_one _).le
  set k₁ : Kernel := { k with
    ioSeq := k.ioSeq + 1, fs := (fsCreate k.fs (logPath (k.tcb t).ownerPid k.ioSeq)).1 }
  have h₁ : Logged k₁ (b + 1) := ⟨(h.files.mono hle).create hpath.length_le (Or.inr hpath),
    h.seq_nonneg.trans hle, Int.add_le_add_right h.seq_le 1, fun i hi => (h.events i hi).mono hle⟩
  have hblock := (steady_setTcb k₁ t TCB.advance).trans (steady_blockThread _ t .ioBlock)
  have hs := hblock.sameStore
  refine (h₁.same hs).registerIo ?_
  rw [hs.ioSeq]
  exact hpath

theorem Logged.executeCommand (h : Logged k b) {t : ℕ} (hpid : validPid (k.tcb t).ownerPid) :
    Logged (executeCommand k t) (b + 1) := by
  have hle : Logged k (b + 1) := h.mono (lt_add_one b).le
  have hsame : ∀ {k₁ k₂ : Kernel}, Steady k₁ k₂ → SameStore k k₁ → Logged k₂ (b + 1) :=
    fun h₂ h₁ => hle.same (h₁.trans h₂.sameStore)
  unfold FleetOS.executeCommand
  cases threadCurrentCommand (k.tcb t) with
  | compute => exact hle.same (steady_setTcb k t _).sameStore
  | produceData => exact hsame (steady_executeProduce k t) (.of_pending rfl rfl rfl)
  | consumeData => exact hsame (steady_executeConsume k t) (.of_pending rfl rfl rfl)
  | acquireResource => exact hsame (steady_executeAcquire k t) (.of_pending rfl rfl rfl)
  | ioWrite => exact h.executeIoWrite hpid

theorem sameStore_applyWoken (k : Kernel) (r : ResourceGraph × List ℤ) :
    SameStore k (applyWoken k r) := by
  have hg : SameStore k { k with graph := r.1 } := .of_pending rfl rfl rfl
  exact hg.trans (steady_applyWoken k r).sameStore

/-- A process that crashes takes its files along. -/
theorem Logged.crash (h : Logged k b) (p : ℕ) : Logged (cleanupProcess k p true) b := by
  rw [cleanupProcess_eq, if_pos rfl]
  set pid := (k.procs p).pid
  set k₁ := withdraw k pid
  have h₁ : Logged (applyWoken k₁ (wakeAllWaiters (deadlockCleanupProcess k₁.graph pid))) b :=
    h.same ((sameStore_withdraw k pid).trans (sameStore_applyWoken k₁ _))
  have h₂ : Logged (releaseResources k₁ pid) b :=
    ⟨h₁.files.cleanup pid, h₁.seq_nonneg, h₁.seq_le, h₁.events⟩
  have hend : SameStore (releaseResources k₁ pid) (terminate (releaseResources k₁ pid) p) :=
    .of_pending rfl rfl rfl
  exact h₂.same (hend.trans (steady_endThreads _ pid).sameStore)

theorem Logged.triggerPageFault (h : Logged k b) : Logged (triggerPageFault k) b := by
  have hmem : ∀ m : PhysicalMemory, SameStore k { k with mem := m } := fun _ => .of_pending rfl rfl rfl
  rcases triggerPageFault_cases k with ⟨pcb, addr, he⟩ | he | ⟨t, p, pcb, addr, page, -, -, -, -, -, he⟩
  · rw [he]
    exact h.same (hmem _)
  · rw [he]
    exact h
  · rw [he]
    have hs := steady_blockThread { k with mem := (memAccess k.mem pcb addr).mem } t .pageFault
    exact (h.same ((hmem _).trans hs.sameStore)).registerPageFault _ page

end steps

/-- Outside the commands no write is started. -/
theorem logged_machineStep_of_ne {m : Kernel × Phase} {b : ℤ} (ht : MachineTables m)
    (h : Logged m.1 b) (hx : m.2 ≠ .execute) : Logged (machineStep m).1 b := by
  obtain ⟨k, ph⟩ := m
  have hsame : SameStore k (machineStep (k, ph)).1 → Logged (machineStep (k, ph)).1 b := h.same
  cases ph with
  | top =>
    simp only [machineStep]
    split_ifs
    · exact h
    · exact h.same (.of_pending rfl rfl rfl)
  | arrivals =>
    have htab : Tables k := ht.tables
    exact hsame (arrived_checkArrivals htab).sameStore
  | ioEvents =>
    exact List.foldlRecOn (motive := fun k => Logged k b) _ completeIoEvent h fun _ h i _ => h.completeIoEvent i
  | pageFaults =>
    exact List.foldlRecOn (motive := fun k => Logged k b) _ completePageFault h fun k' h i _ =>
      h.same (sameStore_completePageFault k' i)
  | compact => exact h.compact
  | dispatch =>
    simp only [machineStep, ensureRunning]
    split_ifs
    · exact h
    · exact h.same (.of_pending rfl rfl rfl)
  | execute => exact absurd rfl hx
  | retire t =>
    have hterm : SameStore k { k with sched := schedulerTerminate k.sched t } :=
      .of_pending rfl rfl rfl
    simp only [machineStep, retire]
    split_ifs
    · cases endingProcess k t with
      | none => exact h.same hterm
      | some p => exact h.same (hterm.trans (sameStore_cleanupProcess _ p))
    · exact h
  | detect =>
    simp only [machineStep, detectDeadlock]
    cases deadlockVictim k with
    | none => exact h
    | some p => exact h.same ((sameStore_applyWoken k _).trans (sameStore_cleanupProcess _ p))
  | crash =>
    simp only [machineStep, injectCrash]
    cases crashedProcess k with
    | none => exact h
    | some p => exact h.crash p
  | pageFault => exact h.triggerPageFault
  | schedTick => exact hsame (.of_pending rfl rfl rfl)
  | waitTime => exact hsame (.of_pending rfl rfl rfl)
  | snapshot => exact hsame (steady_snapshotSync k).sameStore
  | wakeWaiters =>
    have hwoken : SameStore k { k with sensorBuf := bufferWoken k.sensorBuf } :=
      .of_pending rfl rfl rfl
    exact hsame (hwoken.trans (drained_wakeBufferWaiters k).steady.sameStore)
  | finish =>
    simp only [machineStep]
    split_ifs
    · exact h
    · exact h.same (.of_pending rfl rfl rfl)
  | halted => exact h

/-- `1` once the command of the present tick has been executed. -/
def Phase.ran : Phase → ℤ
  | .top | .arrivals | .ioEvents | .pageFaults | .compact | .dispatch | .execute => 0
  | _ => 1

theorem Phase.ran_le (ph : Phase) : ph.ran ≤ 1 := by
  cases ph <;> simp [Phase.ran]

/-- The tick, and one more once its command has been executed, only grow. -/
theorem ran_machineStep {m : Kernel × Phase} (ht : MachineTables m) :
    m.1.currentTick + m.2.ran ≤ (machineStep m).1.currentTick + (machineStep m).2.ran ∧
      (m.2 = .execute →
        m.1.currentTick + m.2.ran + 1 ≤ (machineStep m).1.currentTick + (machineStep m).2.ran) := by
  have htick := (tableStep ht).currentTick
  obtain ⟨k, ph⟩ := m
  cases ph with
  | top =>
    simp only [machineStep]
    split_ifs <;> simp [Phase.ran]
  | execute =>
    rw [htick (by simp)]
    simp only [machineStep]
    split <;> simp [Phase.ran]
  | finish =>
    simp only [machineStep]
    split_ifs <;> simp [Phase.ran]
  | _ =>
    rw [htick (by simp)]
    simp [machineStep, Phase.ran]

theorem logged_machineStep {m : Kernel × Phase} (ht : MachineTables m)
    (h : Logged m.1 (m.1.currentTick + m.2.ran)) :
    Logged (machineStep m).1 ((machineStep m).1.currentTick + (machineStep m).2.ran) := by
  obtain ⟨hle, hlt⟩ := ran_machineStep ht
  by_cases hx : m.2 = .execute
  · obtain ⟨k, ph⟩ := m
    subst hx
    refine Logged.mono ?_ (hlt rfl)
    cases hrun : k.runningThread with
    | none =>
      simp only [machineStep, hrun]
      exact h.mono (lt_add_one _).le
    | some t =>
      have htab : Tables k := ht.tables
      obtain ⟨p, hp, hpid⟩ := htab.owner t (htab.running_lt hrun)
      simp only [machineStep, hrun]
      exact h.executeCommand (hpid ▸ htab.pid_range p hp)
  · exact (logged_machineStep_of_ne ht h hx).mono hle

/-! ## Whole runs -/

theorem logged_kernelInit (k₀ : Kernel) (cfg : KernelConfig) (w : List ProcessSpec) :
    Logged (kernelInit k₀ cfg w) 0 := by
  have hclear : Logged (clearedKernel k₀ cfg w) 0 :=
    ⟨emptyFiles_fsInit, le_rfl, le_rfl, fun _ hi => by cases hi⟩
  have hl : Loaded (clearedKernel k₀ cfg w) (kernelInit k₀ cfg w) :=
    loaded_foldl loaded_bootProcess w.zipIdx _
  have hs : SameStore (clearedKernel k₀ cfg w) (kernelInit k₀ cfg w) := by
    rw [hl]
    exact .of_pending rfl rfl rfl
  exact hclear.same hs

theorem logged_machineRun (k₀ : Kernel) (cfg : KernelConfig) {w : List ProcessSpec}
    (hw : ValidWorkload w) (n : ℕ) :
    Logged (machineRun (kernelInit k₀ cfg w) n).1
      ((machineRun (kernelInit k₀ cfg w) n).1.currentTick +
        (machineRun (kernelInit k₀ cfg w) n).2.ran) := by
  induction n with
  | zero =>
    have htick : (machineRun (kernelInit k₀ cfg w) 0).1.currentTick = 0 :=
      currentTick_kernelInit k₀ cfg w
    rw [htick]
    exact logged_kernelInit k₀ cfg w
  | succ n ih =>
    rw [machineRun_succ]
    exact logged_machineStep (tables_machineRun k₀ cfg hw n) ih

/-- In every state of a run the directory lists the files of `fs_init` and log files, no two with
the same path, and counts them; no byte of the disk is written, and no read gives one. There are
no more writes than ticks that have begun. -/
theorem files_machineRun (k₀ : Kernel) (cfg : KernelConfig) {w : List ProcessSpec}
    (hw : ValidWorkload w) (n : ℕ) :
    let k := (machineRun (kernelInit k₀ cfg w) n).1
    (DistinctPaths k.fs ∧ k.fs.fileCount = usedCount k.fs ∧ usedCount k.fs ≤ maxFiles) ∧
      (∀ i, (k.fs.files i).used = true → (k.fs.files i).size = 0 ∧ (k.fs.files i).firstBlock = -1 ∧
        ((k.fs.files i).path ∈ initialPaths ∨ LogPath k.ioSeq (k.fs.files i).path)) ∧
      (0 ≤ k.ioSeq ∧ k.ioSeq ≤ k.currentTick + 1) ∧ (∀ b o, k.fs.data b o = 0) ∧
      ∀ path size, (fsRead k.fs path size).2 = [] ∧
        ∀ src, (fsWrite k.fs path src size).2 = -1 := by
  have hl := logged_machineRun k₀ cfg hw n
  have h := hl.files
  refine ⟨⟨h.directory.distinct, h.directory.count, List.countP_le_length.trans (by simp)⟩,
    fun i hi => ⟨h.size i hi, h.noFree.firstBlock i hi, h.path i hi⟩, ⟨hl.seq_nonneg, ?_⟩,
    fun b o => ?_, fun path size => ⟨h.read_eq path size, fun src => (h.noFree.write path src size).2⟩⟩
  · exact hl.seq_le.trans (Int.add_le_add_left (Phase.ran_le _) _)
  · rw [h.data]

/-- The drones, in the middle of the ninth tick. -/
theorem files_machineRun_drones :
    let k := (machineRun (kernelInit .zero ⟨.rr, 100, false, true⟩ droneWorkload) 120).1
    (DistinctPaths k.fs ∧ k.fs.fileCount = usedCount k.fs ∧ usedCount k.fs ≤ maxFiles) ∧
      (∀ i, (k.fs.files i).used = true → (k.fs.files i).size = 0 ∧ (k.fs.files i).firstBlock = -1 ∧
        ((k.fs.files i).path ∈ initialPaths ∨ LogPath k.ioSeq (k.fs.files i).path)) ∧
      (0 ≤ k.ioSeq ∧ k.ioSeq ≤ k.currentTick + 1) ∧ (∀ b o, k.fs.data b o = 0) ∧
      ∀ path size, (fsRead k.fs path size).2 = [] ∧
        ∀ src, (fsWrite k.fs path src size).2 = -1 :=
  files_machineRun .zero ⟨.rr, 100, false, true⟩ valid_droneWorkload 120

end FleetOS
