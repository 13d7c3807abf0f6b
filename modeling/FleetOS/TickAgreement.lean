import FleetOS.KernelAgreement
import FleetOS.MachineSteps

/-!
# The tick of kernels that agree

The parts of the tick loop keep the agreement of two kernels, and come to the same next part
(`Kernel.Agree.machineStep`). What a part reads of the threads belongs to the table, by the
discipline of the scheduler.
-/

namespace FleetOS

open TwoRuns

namespace Kernel.Agree

variable {n m : ℕ} {pids : Set ℤ} {k k' : Kernel} {t p : ℕ}

/-! ## Pending events -/

theorem compactPendingEvents (h : Agree n m pids k k') :
    Agree n m pids (compactPendingEvents k) (compactPendingEvents k') := by
  unfold FleetOS.compactPendingEvents
  rw [h.pending, h.pendingCount]
  exact { h with pending := rfl, pendingCount := rfl }

theorem due (h : Agree n m pids k k') (reason : BlockReason) (i : ℕ) :
    k'.due reason i = k.due reason i := by
  rw [Kernel.due, Kernel.due, h.pending, h.currentTick]

theorem event (h : Agree n m pids k k') (i : ℕ) : k'.pending i = k.pending i := by rw [h.pending]

theorem completeIoEvent (h : Agree n m pids k k') (i : ℕ) :
    Agree n m pids (completeIoEvent k i) (completeIoEvent k' i) := by
  refine ite_rel (by rw [h.due]) (fun _ => h) fun _ => ?_
  refine setPending ?_ i _
  rw [h.event i, h.findProc]
  cases k.findProc (k.pending i).pid with
  | none => exact h
  | some p =>
    refine unblockOwned ?_ _ _
    exact { h with fs := congrArg (fun fs => (fsWrite fs _ _ _).1) h.fs }

theorem completeIoEvents (h : Agree n m pids k k') :
    Agree n m pids (completeIoEvents k) (completeIoEvents k') := by
  unfold FleetOS.completeIoEvents
  rw [h.pendingCount]
  exact List.foldl_rel h fun i _ c c' hc => hc.completeIoEvent i

theorem repairVictim {procs procs' : ℕ → PCB} (h : ∀ q < m, procs' q = procs q)
    (ei : EvictionInfo) : ∀ q < m, repairVictim procs' m ei q = repairVictim procs m ei q := by
  have hfind : FleetOS.findProc procs' m ei.victimPid = FleetOS.findProc procs m ei.victimPid :=
    List.find?_congr fun p hp => by rw [h p (List.mem_range.mp hp)]
  unfold FleetOS.repairVictim
  refine ite_rel (R := fun f f' : ℕ → PCB => ∀ q < m, f' q = f q) Iff.rfl (fun _ => ?_) fun _ => h
  rw [hfind]
  cases hv : FleetOS.findProc procs m ei.victimPid with
  | none => exact h
  | some v =>
    refine ite_rel (R := fun f f' : ℕ → PCB => ∀ q < m, f' q = f q) Iff.rfl (fun _ q hq => ?_)
      fun _ => h
    rw [Function.update_apply, Function.update_apply, h q hq, h v (findProc_eq_some hv).1]

theorem resolvePageFault (h : Agree n m pids k k') (hp : p < m) (page : ℤ) :
    Agree n m pids
      { k with
        mem := (resolvePageFault k.mem k.procs k.procCount p page).1
        procs := (resolvePageFault k.mem k.procs k.procCount p page).2 }
      { k' with
        mem := (resolvePageFault k'.mem k'.procs k'.procCount p page).1
        procs := (resolvePageFault k'.mem k'.procs k'.procCount p page).2 } := by
  unfold FleetOS.resolvePageFault
  rw [h.mem, h.procs p hp, h.procCount, h.procCount']
  refine { h with
    procCount := rfl
    procCount' := rfl
    mem := rfl
    procs := repairVictim (fun q hq => ?_) _ }
  rw [Function.update_apply, Function.update_apply, h.procs q hq]

theorem completePageFault (h : Agree n m pids k k') (i : ℕ) :
    Agree n m pids (completePageFault k i) (completePageFault k' i) := by
  refine ite_rel (by rw [h.due]) (fun _ => h) fun _ => ?_
  refine setPending ?_ i _
  rw [h.event i, h.findProc]
  cases hf : k.findProc (k.pending i).pid with
  | none => exact h
  | some p =>
    have hp := h.findProc_lt hf
    dsimp only
    rw [h.procs p hp]
    exact (h.resolvePageFault hp (k.pending i).page).unblockOwned _ _

theorem completePageFaults (h : Agree n m pids k k') :
    Agree n m pids (completePageFaults k) (completePageFaults k') := by
  unfold FleetOS.completePageFaults
  rw [h.pendingCount]
  exact List.foldl_rel h fun i _ c c' hc => hc.completePageFault i

theorem registerIo (h : Agree n m pids k k') (pid : ℤ) (path : CString) :
    Agree n m pids (registerIo k pid path) (registerIo k' pid path) := by
  unfold FleetOS.registerIo
  rw [h.pending]
  cases (List.range maxPending).find? fun i => !(k.pending i).active with
  | none => exact h
  | some i =>
    dsimp only
    rw [h.currentTick]
    have hset := h.setPending i fun e => { e with
      pid := pid
      completionTick := k.currentTick + ioDuration
      reason := .ioBlock
      path := path.take 63
      active := true }
    exact ite_rel (by rw [hset.pendingCount]) (fun _ => { hset with pendingCount := rfl })
      fun _ => hset

theorem registerPageFault (h : Agree n m pids k k') (pid page : ℤ) :
    Agree n m pids (registerPageFault k pid page) (registerPageFault k' pid page) := by
  unfold FleetOS.registerPageFault
  rw [h.pending, h.pendingCount, h.currentTick]
  dsimp only
  cases (List.range k.pendingCount).find? fun i => !(k.pending i).active with
  | none =>
    have hset := h.setPending k.pendingCount fun e => { e with
      pid := pid
      completionTick := k.currentTick + pageFaultDuration
      reason := .pageFault
      page := page
      active := true }
    exact ite_rel Iff.rfl (fun _ => { hset with pendingCount := rfl }) fun _ => h
  | some i => exact h.setPending i _

/-! ## Commands -/

/-- The same item is produced, with the same result. -/
theorem produced (h : Agree n m pids k k') (pid : ℤ) :
    bufferProduce k'.sensorBuf (k'.currentTick * 100 + pid) pid =
      bufferProduce k.sensorBuf (k.currentTick * 100 + pid) pid := by
  rw [h.sensorBuf, h.currentTick]

theorem executeProduce (h : Agree n m pids k k') (ht : t < n) :
    Agree n m pids (executeProduce k t) (executeProduce k' t) := by
  unfold FleetOS.executeProduce
  rw [h.tcb ht]
  dsimp only
  rw [h.produced]
  refine ite_rel Iff.rfl (fun _ => (h.setBuffer rfl).blockThread ht .mutexWait) fun _ => ?_
  exact ((h.setBuffer rfl).setTcb t threadExecute).wakeThreads _

theorem executeConsume (h : Agree n m pids k k') (ht : t < n) :
    Agree n m pids (executeConsume k t) (executeConsume k' t) := by
  unfold FleetOS.executeConsume
  rw [h.tcb ht, h.sensorBuf]
  refine ite_rel Iff.rfl (fun _ => (h.setBuffer rfl).blockThread ht .mutexWait) fun _ => ?_
  exact ((h.setBuffer rfl).setTcb t threadExecute).wakeThreads _

theorem wantedResource (h : Agree n m pids k k') (pid : ℤ) :
    wantedResource k' pid = wantedResource k pid := by
  rw [FleetOS.wantedResource, FleetOS.wantedResource, h.deadlockPhase]

theorem executeAcquire (h : Agree n m pids k k') (ht : t < n) (hpid : (k.tcb t).ownerPid ∈ pids) :
    Agree n m pids (executeAcquire k t) (executeAcquire k' t) := by
  refine ite_rel (by rw [h.config]) (fun _ => ?_) fun _ => h.setTcb t _
  rw [h.tcb ht]
  set pid := (k.tcb t).ownerPid
  have hr : ResourceGraph.Agree.AgreeWith pids
      (deadlockRequest k.graph pid (FleetOS.wantedResource k pid))
      (deadlockRequest k'.graph pid (FleetOS.wantedResource k' pid)) := by
    rw [h.wantedResource]
    exact h.graph.deadlockRequest hpid _
  have hset := h.setGraph hr.1
  refine ite_rel (by rw [hr.2]) (fun _ => (hset.nextPhase _).setTcb t _) fun _ => ?_
  exact ite_rel (by rw [hr.2]) (fun _ => hset.setTcb t _) fun _ => hset.blockThread ht _

theorem executeIoWrite (h : Agree n m pids k k') (ht : t < n) :
    Agree n m pids (executeIoWrite k t) (executeIoWrite k' t) := by
  unfold FleetOS.executeIoWrite
  rw [h.tcb ht, h.ioSeq]
  set path := logPath (k.tcb t).ownerPid k.ioSeq
  have hset : Agree n m pids { k with ioSeq := k.ioSeq + 1, fs := (fsCreate k.fs path).1 }
      { k' with ioSeq := k.ioSeq + 1, fs := (fsCreate k'.fs path).1 } :=
    { h with ioSeq := rfl, fs := congrArg (fun fs => (fsCreate fs path).1) h.fs }
  exact ((hset.setTcb t TCB.advance).blockThread ht .ioBlock).registerIo _ _

theorem executeCommand (h : Agree n m pids k k') (ht : t < n) (hpid : (k.tcb t).ownerPid ∈ pids) :
    Agree n m pids (executeCommand k t) (executeCommand k' t) := by
  unfold FleetOS.executeCommand
  rw [h.tcb ht]
  cases threadCurrentCommand (k.tcb t) with
  | compute => exact h.setTcb t _
  | produceData => exact h.executeProduce ht
  | consumeData => exact h.executeConsume ht
  | acquireResource => exact h.executeAcquire ht hpid
  | ioWrite => exact h.executeIoWrite ht

/-! ## The parts of a tick -/

theorem arrive (h : Agree n m pids k k') (hp : p < m) :
    Agree n m pids (arrive k p) (arrive k' p) := by
  refine ite_rel (by rw [h.procs p hp, h.currentTick]) (fun _ => ?_) fun _ => h
  have hset := h.setProc p fun c => pcbSetState c .ready
  dsimp only
  rw [hset.threads]
  refine List.foldl_rel hset fun t ht c c' hc => ?_
  have htn := hset.lt_of_mem ht
  exact ite_rel (by rw [hc.tcb htn, hc.procs p hp])
    (fun _ => hc.setSched (hc.sched.schedulerAdd htn)) fun _ => hc

theorem checkArrivals (h : Agree n m pids k k') :
    Agree n m pids (checkArrivals k) (checkArrivals k') := by
  unfold FleetOS.checkArrivals
  rw [h.procCount, h.procCount']
  exact List.foldl_rel h fun p hp c c' hc => hc.arrive (List.mem_range.mp hp)

theorem ensureRunning (h : Agree n m pids k k') (hc : k.sched.CurrentLt n) :
    Agree n m pids (ensureRunning k) (ensureRunning k') :=
  ite_rel (by rw [h.runningThread hc]) (fun _ => h)
    fun _ => h.setSched (h.sched.schedulerNext hc)

theorem endingProcess (h : Agree n m pids k k') (ht : t < n) :
    endingProcess k' t = endingProcess k t := by
  refine ite_eq (by rw [h.tcb ht]) (fun _ => ?_) fun _ => rfl
  rw [h.tcb ht, h.findProc]
  cases hf : k.findProc (k.tcb t).ownerPid with
  | none => rfl
  | some p =>
    have hset := h.setSched (h.sched.schedulerTerminate t)
    simp only [Option.filter_some, h.procs p (h.findProc_lt hf), hset.processHasLiveThreads]

theorem endingProcess_lt (h : Agree n m pids k k') (he : FleetOS.endingProcess k t = some p) :
    p < m := by
  unfold FleetOS.endingProcess at he
  split_ifs at he
  exact h.findProc_lt (Option.filter_eq_some_iff.mp he).1

theorem retire (h : Agree n m pids k k') (ht : t < n) :
    Agree n m pids (retire k t) (retire k' t) := by
  refine ite_rel (by rw [h.tcb ht]) (fun _ => ?_) fun _ => h
  have hset := h.setSched (h.sched.schedulerTerminate t)
  rw [h.endingProcess ht]
  cases he : FleetOS.endingProcess k t with
  | none => exact hset
  | some p => exact hset.cleanupProcess (h.endingProcess_lt he) false

theorem deadlockVictim (h : Agree n m pids k k') : deadlockVictim k' = deadlockVictim k := by
  refine ite_eq (by rw [h.currentTick]) (fun _ => ?_) fun _ => rfl
  rw [h.graph.deadlockDetect]
  cases deadlockDetect k.graph with
  | none => rfl
  | some victim => exact h.findProc victim

theorem deadlockVictim_lt (h : Agree n m pids k k') (hv : FleetOS.deadlockVictim k = some p) :
    p < m := by
  unfold FleetOS.deadlockVictim at hv
  split_ifs at hv
  split at hv
  · cases hv
  · exact h.findProc_lt hv

theorem detectDeadlock (h : Agree n m pids k k') :
    Agree n m pids (detectDeadlock k) (detectDeadlock k') := by
  unfold FleetOS.detectDeadlock
  rw [h.deadlockVictim]
  cases hv : FleetOS.deadlockVictim k with
  | none => exact h
  | some p =>
    have hp := h.deadlockVictim_lt hv
    dsimp only
    rw [h.procs p hp]
    exact (h.applyWoken (h.graph.deadlockResolve _)).cleanupProcess hp false

theorem crashedProcess (h : Agree n m pids k k') (hc : k.sched.CurrentLt n) :
    crashedProcess k' = crashedProcess k := by
  refine ite_eq (by rw [h.config, h.currentTick]) (fun _ => ?_) fun _ => rfl
  rw [h.runningThread hc]
  cases hrun : k.runningThread with
  | none => rfl
  | some t =>
    dsimp only
    rw [h.tcb (hc t (runningThread_some hrun).1), h.findProc]

theorem crashedProcess_lt (h : Agree n m pids k k') (hp : FleetOS.crashedProcess k = some p) :
    p < m := by
  unfold FleetOS.crashedProcess at hp
  split_ifs at hp
  split at hp
  · cases hp
  · exact h.findProc_lt hp

theorem injectCrash (h : Agree n m pids k k') (hc : k.sched.CurrentLt n) :
    Agree n m pids (injectCrash k) (injectCrash k') := by
  unfold FleetOS.injectCrash
  rw [h.crashedProcess hc]
  cases hp : FleetOS.crashedProcess k with
  | none => exact h
  | some p => exact h.cleanupProcess (h.crashedProcess_lt hp) true

theorem triggerPageFault (h : Agree n m pids k k') (hc : k.sched.CurrentLt n) :
    Agree n m pids (triggerPageFault k) (triggerPageFault k') := by
  refine ite_rel (by rw [h.config]) (fun _ => h) fun _ =>
    ite_rel (by rw [h.currentTick]) (fun _ => h) fun _ => ?_
  rw [h.runningThread hc]
  cases hrun : k.runningThread with
  | none => exact h
  | some t =>
    have ht := hc t (runningThread_some hrun).1
    dsimp only
    rw [h.tcb ht, h.findProc]
    cases hf : k.findProc (k.tcb t).ownerPid with
    | none => exact h
    | some p =>
      have hp := h.findProc_lt hf
      dsimp only
      rw [h.procs p hp]
      refine ite_rel Iff.rfl (fun _ => h) fun _ => ?_
      have hr : memAccess k'.mem (k.procs p) (memGetPageCount (k.procs p) * pageSize) =
          memAccess k.mem (k.procs p) (memGetPageCount (k.procs p) * pageSize) := by rw [h.mem]
      have hset : Agree n m pids
          { k with mem := (memAccess k.mem (k.procs p) (memGetPageCount (k.procs p) * pageSize)).mem }
          { k' with
            mem := (memAccess k'.mem (k.procs p) (memGetPageCount (k.procs p) * pageSize)).mem } :=
        { h with mem := congrArg AccessResult.mem hr }
      refine ite_rel (by rw [hr]) (fun _ => ?_) fun _ => hset
      rw [hr] at hset ⊢
      exact (hset.blockThread ht .pageFault).registerPageFault _ _

theorem trackWaitTime (h : Agree n m pids k k') :
    Agree n m pids (trackWaitTime k) (trackWaitTime k') := by
  refine { h with procs := fun p hp => ?_ }
  simp only [FleetOS.trackWaitTime, h.procs p hp, h.procCount, h.procCount']

theorem snapshotSync (h : Agree n m pids k k') :
    Agree n m pids (snapshotSync k) (snapshotSync k') := by
  refine ite_rel (by rw [h.currentTick]) (fun _ => ?_) fun _ => h
  rw [h.procCount, h.procCount']
  refine List.foldl_rel h fun p hp c c' hc => ?_
  have hpm := List.mem_range.mp hp
  exact ite_rel (by rw [hc.procs p hpm]) (fun _ => hc) fun _ => hc.syncPcb hpm

theorem wakeConsumers (h : Agree n m pids k k') :
    Agree n m pids (wakeConsumers k) (wakeConsumers k') := by
  unfold FleetOS.wakeConsumers
  rw [h.sensorBuf]
  exact ite_rel Iff.rfl (fun _ => (h.setBuffer rfl).wakeThreads _) fun _ => h

theorem wakeProducers (h : Agree n m pids k k') :
    Agree n m pids (wakeProducers k) (wakeProducers k') := by
  unfold FleetOS.wakeProducers
  rw [h.sensorBuf]
  exact ite_rel Iff.rfl (fun _ => (h.setBuffer rfl).wakeThreads _) fun _ => h

theorem wakeLocker (h : Agree n m pids k k') :
    Agree n m pids (wakeLocker k) (wakeLocker k') := by
  unfold FleetOS.wakeLocker
  rw [h.sensorBuf]
  exact ite_rel Iff.rfl (fun _ => (h.setBuffer rfl).wakeThreads _) fun _ => h

theorem wakeBufferWaiters (h : Agree n m pids k k') :
    Agree n m pids (wakeBufferWaiters k) (wakeBufferWaiters k') := by
  rw [wakeBufferWaiters_eq, wakeBufferWaiters_eq]
  exact h.wakeConsumers.wakeProducers.wakeLocker

theorem allTerminated (h : Agree n m pids k k') : allTerminated k' = allTerminated k := by
  rw [Bool.eq_iff_iff]
  simp only [FleetOS.allTerminated, List.all_eq_true, h.procCount, h.procCount', List.mem_range]
  exact forall₂_congr fun p hp => by rw [h.procs p hp]

/-! ## The loop -/

/-- The same next part, in kernels that agree. -/
def AgreeAt (n m : ℕ) (pids : Set ℤ) (x x' : Kernel × Phase) : Prop :=
  Agree n m pids x.1 x'.1 ∧ x'.2 = x.2

theorem machineStep {x x' : Kernel × Phase} (h : AgreeAt n m pids x x') (hx : MachineTables x)
    (hpids : ∀ p < m, (x.1.procs p).pid ∈ pids) :
    AgreeAt n m pids (machineStep x) (machineStep x') := by
  obtain ⟨k, ph⟩ := x
  obtain ⟨k', ph'⟩ := x'
  obtain ⟨h, rfl⟩ : Agree n m pids k k' ∧ ph' = ph := h
  have hn : k.threadCount = n := h.threadCount
  have hc : k.sched.CurrentLt n := hn ▸ hx.tables.disciplined.current_lt
  cases ph' with
  | top =>
    refine ite_rel (by rw [h.config, h.currentTick]) (fun _ => ⟨h, rfl⟩) fun _ => ⟨?_, rfl⟩
    exact { h with mem := by rw [h.mem, h.currentTick] }
  | arrivals => exact ⟨h.checkArrivals, rfl⟩
  | ioEvents => exact ⟨h.completeIoEvents, rfl⟩
  | pageFaults => exact ⟨h.completePageFaults, rfl⟩
  | compact => exact ⟨h.compactPendingEvents, rfl⟩
  | dispatch => exact ⟨h.ensureRunning hc, rfl⟩
  | execute =>
    unfold FleetOS.machineStep
    dsimp only
    rw [h.runningThread hc]
    cases hrun : k.runningThread with
    | none => exact ⟨h, rfl⟩
    | some t =>
      have ht := hc t (runningThread_some hrun).1
      obtain ⟨p, hp, he⟩ := hx.tables.owner t (hn ▸ ht)
      exact ⟨h.executeCommand ht (he ▸ hpids p (h.procCount ▸ hp)), rfl⟩
  | retire t => exact ⟨h.retire (hn ▸ hx.retiring t rfl), rfl⟩
  | detect => exact ⟨h.detectDeadlock, rfl⟩
  | crash => exact ⟨h.injectCrash hc, rfl⟩
  | pageFault => exact ⟨h.triggerPageFault hc, rfl⟩
  | schedTick =>
    refine ⟨h.setSched ?_, rfl⟩
    rw [h.currentTick]
    exact h.sched.schedulerTick hc _
  | waitTime => exact ⟨h.trackWaitTime, rfl⟩
  | snapshot => exact ⟨h.snapshotSync, rfl⟩
  | wakeWaiters => exact ⟨h.wakeBufferWaiters, rfl⟩
  | finish =>
    refine ite_rel (by rw [h.allTerminated]) (fun _ => ⟨h, rfl⟩) fun _ => ⟨?_, rfl⟩
    exact { h with currentTick := congrArg (· + 1) h.currentTick }
  | halted => exact ⟨h, rfl⟩

end Kernel.Agree

end FleetOS
