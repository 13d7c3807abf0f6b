import FleetOS.TickAgreement

/-!
# The log of kernels that agree

In two kernels that agree, every part of a tick prints the same lines (`partLog_eq`) : what a line
or a snapshot shows belongs to the tables.
-/

namespace FleetOS

open TwoRuns Printing

/-- What a snapshot shows of the scheduler. -/
theorem Scheduler.Agree.schedulerTexts {n : ℕ} {s s' : Scheduler} (h : s.Agree n s')
    (hs : s.Sound n) : schedulerTexts s' = schedulerTexts s := by
  have htids (q : ReadyQueue) (hq : ∀ t ∈ q.toList, t ∈ s.queued) : queueTids s' q = queueTids s q :=
    List.map_congr_left fun t ht => by rw [h.tcb t (hs.queued_lt t (hq t ht))]
  unfold FleetOS.schedulerTexts
  rw [h.schedMode, h.currentTid hs.current_lt, h.quantumRemaining, h.currentQueue,
    h.priorityBoostCount]
  cases hm : s.schedMode with
  | rr =>
    dsimp only
    rw [h.rr, htids s.rr fun t ht => by rw [queued_rr hm]; exact ht]
  | mlfq =>
    have hlevel (l : ℤ) (hl : 0 ≤ l ∧ l ≤ 2) : levelTexts s' l = levelTexts s l := by
      unfold levelTexts
      rw [h.mlfq, htids (s.mlfq l) fun t ht => mem_queued_of_mlfq hm hl ht]
    dsimp only
    rw [hlevel 0 (by decide), hlevel 1 (by decide), hlevel 2 (by decide)]

namespace Kernel.Agree

variable {n m : ℕ} {pids : Set ℤ} {k k' : Kernel} {t p : ℕ}

/-! ## Blocking and waking -/

theorem ownerLog (h : Agree n m pids k k') (ht : t < n) (lines : PCB → List CString) :
    ownerLog k' t lines = ownerLog k t lines := by
  unfold FleetOS.ownerLog
  rw [h.tcb ht, h.findProc]
  cases hf : k.findProc (k.tcb t).ownerPid with
  | none => rfl
  | some p => exact congrArg lines ((h.syncPcb (h.findProc_lt hf)).procs p (h.findProc_lt hf))

theorem blockThreadLog (h : Agree n m pids k k') (ht : t < n) (reason : BlockReason)
    (hnext : (FleetOS.blockThread k t reason).sched.CurrentLt n) :
    blockThreadLog k' t reason = blockThreadLog k t reason := by
  refine ite_eq (by rw [h.tcb ht]) (fun _ => rfl) fun hstate => ?_
  have hset := h.setTcb t fun c => threadBlock c reason
  have hblock := hset.setSched (hset.sched.schedulerBlock ht)
  rw [FleetOS.blockThread, if_neg hstate, sched_syncOwner] at hnext
  have hswitch := hset.sched.schedulerBlockLog ht hnext k.currentTick
  dsimp only
  rw [hblock.tcb ht, hblock.ownerLog ht, hset.currentTick]
  exact congrArg (· ++ _ ++ _) hswitch

theorem unblockThreadLog (h : Agree n m pids k k') (ht : t < n) :
    unblockThreadLog k' t = unblockThreadLog k t := by
  have hset := h.setTcb t threadUnblock
  have hadd : Agree n m pids
      { k.setTcb t threadUnblock with sched := schedulerUnblock (k.setTcb t threadUnblock).sched t }
      { k'.setTcb t threadUnblock with
        sched := schedulerUnblock (k'.setTcb t threadUnblock).sched t } :=
    hset.setSched (hset.sched.schedulerAdd ht)
  unfold FleetOS.unblockThreadLog
  dsimp only
  rw [hadd.tcb ht, hadd.ownerLog ht, hset.currentTick]

theorem unblockIfLog (h : Agree n m pids k k') (pid : ℤ) (reason : BlockReason) (ht : t < n) :
    unblockIfLog pid reason k' t = unblockIfLog pid reason k t :=
  ite_eq (by rw [h.tcb ht]) (fun _ => h.unblockThreadLog ht) fun _ => rfl

theorem unblockOwnedLog (h : Agree n m pids k k') (pid : ℤ) (reason : BlockReason) :
    unblockOwnedLog k' pid reason = unblockOwnedLog k pid reason := by
  unfold FleetOS.unblockOwnedLog
  rw [h.threads]
  exact foldOut_eq (fun t ht _ _ hc => hc.unblockIf pid reason (h.lt_of_mem ht))
    (fun t ht _ _ hc => hc.unblockIfLog pid reason (h.lt_of_mem ht)) h

theorem wakeIdLog (h : Agree n m pids k k') (id : ℤ) : wakeIdLog k' id = wakeIdLog k id := by
  unfold FleetOS.wakeIdLog
  rw [h.findThread]
  cases hf : FleetOS.findThread k id with
  | none => rfl
  | some t =>
    have ht := h.findThread_lt hf
    exact ite_eq (by rw [h.tcb ht]) (fun _ => h.unblockThreadLog ht) fun _ => rfl

theorem wakeThreadsLog (h : Agree n m pids k k') (ids : List ℤ) :
    wakeThreadsLog k' ids = wakeThreadsLog k ids :=
  foldOut_eq (fun id _ _ _ hc => hc.wakeId id) (fun id _ _ _ hc => hc.wakeIdLog id) h

/-! ## The end of a process -/

theorem deadlockWakeCallbackLog (h : Agree n m pids k k') (pid : ℤ) :
    deadlockWakeCallbackLog k' pid = deadlockWakeCallbackLog k pid := by
  unfold FleetOS.deadlockWakeCallbackLog
  rw [h.threads]
  exact foldOut_eq (fun t ht _ _ hc => hc.wakeGranted pid (h.lt_of_mem ht))
    (fun t ht _ _ hc => hc.unblockIfLog pid .resourceWait (h.lt_of_mem ht)) h

theorem applyWokenLog (h : Agree n m pids k k') (c : Clocks) (served : List (ℤ × ℤ)) :
    applyWokenLog c k' served = applyWokenLog c k served := by
  unfold FleetOS.applyWokenLog
  refine foldOut_eq (fun (grant : ℤ × ℤ) _ _ _ hc => hc.deadlockWakeCallback grant.1)
    (fun grant _ _ _ hc => ?_) h
  exact congrArg (_ :: ·) (hc.deadlockWakeCallbackLog grant.1)

theorem handOverLog (h : Agree n m pids k k') (c : Clocks) (pid : ℤ) :
    handOverLog c k' pid = handOverLog c k pid := by
  have hg := h.graph.deadlockCleanupProcess pid
  unfold FleetOS.handOverLog
  dsimp only
  rw [h.graph.deadlockCleanupProcessLog, ResourceGraph.Agree.wakeGrants resourceIndices hg,
    (h.setGraph hg.wakeAllWaiters.1).applyWokenLog]

theorem endThreadsLog (h : Agree n m pids k k') (pid : ℤ) :
    endThreadsLog k' pid = endThreadsLog k pid := by
  unfold FleetOS.endThreadsLog
  rw [h.threads]
  refine foldOut_eq (fun t ht _ _ hc => hc.endThread pid (h.lt_of_mem ht))
    (fun t ht _ _ hc => ?_) h
  have htn := h.lt_of_mem ht
  exact ite_eq (by rw [hc.tcb htn]) (fun _ => by rw [hc.tcb htn, hc.currentTick]) fun _ => rfl

theorem cleanupProcessLog (h : Agree n m pids k k') (hp : p < m) (c : Clocks) (reason : String)
    (release : Bool) : cleanupProcessLog c k' p reason release =
      cleanupProcessLog c k p reason release := by
  have hout := h.takeOut (k.procs p).pid release
  have hend := hout.terminate hp
  unfold FleetOS.cleanupProcessLog
  dsimp only
  rw [h.procs p hp, h.sensorBuf, (h.withdraw _).handOverLog, hout.mem, hout.procs p hp,
    hend.endThreadsLog, hend.currentTick, hend.procs p hp]

/-! ## Pending events -/

theorem completeIoEventLog (h : Agree n m pids k k') (i : ℕ) :
    completeIoEventLog k' i = completeIoEventLog k i := by
  refine ite_eq (by rw [h.due]) (fun _ => rfl) fun _ => ?_
  dsimp only
  rw [h.event i, h.findProc]
  cases k.findProc (k.pending i).pid with
  | none => rfl
  | some p =>
    set data := sensorData (k.pending i).pid (k.pending i).completionTick
    have hwrite : Agree n m pids
        { k with fs := (fsWrite k.fs (k.pending i).path data data.length).1 }
        { k' with fs := (fsWrite k'.fs (k.pending i).path data data.length).1 } :=
      { h with fs := congrArg (fun fs => (fsWrite fs (k.pending i).path data data.length).1) h.fs }
    dsimp only
    rw [hwrite.unblockOwnedLog, h.currentTick]

theorem completePageFaultLog (h : Agree n m pids k k') (i : ℕ) :
    completePageFaultLog k' i = completePageFaultLog k i := by
  refine ite_eq (by rw [h.due]) (fun _ => rfl) fun _ => ?_
  dsimp only
  rw [h.event i, h.findProc]
  cases hf : k.findProc (k.pending i).pid with
  | none => rfl
  | some p =>
    have hp := h.findProc_lt hf
    dsimp only
    rw [h.procs p hp, (h.resolvePageFault hp _).unblockOwnedLog, h.mem, h.currentTick]

/-! ## Commands -/

/-- The running thread blocks. -/
theorem blockRunningLog {k₁ k₁' : Kernel} (h : Agree n m pids k₁ k₁') (hk : Tables k)
    (hrun : k.runningThread = some t) (hn : k.threadCount = n) {f : TCB → TCB}
    (hid : (f (k.tcb t)).ident = (k.tcb t).ident) (hs : (f (k.tcb t)).state = (k.tcb t).state)
    (hl : (f (k.tcb t)).mlfqLevel = (k.tcb t).mlfqLevel)
    (hsched : k₁.sched = k.sched.setTcb t f) (reason : BlockReason) :
    FleetOS.blockThreadLog k₁' t reason = FleetOS.blockThreadLog k₁ t reason := by
  have hb := blocked_blockThread hk hrun hid hs hl hsched reason
  exact h.blockThreadLog (hn ▸ hk.running_lt hrun) reason (hn ▸ hb.frame.disciplined.current_lt)

theorem blockRunningLog_of_sched {k₁ k₁' : Kernel} (h : Agree n m pids k₁ k₁') (hk : Tables k)
    (hrun : k.runningThread = some t) (hn : k.threadCount = n) (hsched : k₁.sched = k.sched)
    (reason : BlockReason) :
    FleetOS.blockThreadLog k₁' t reason = FleetOS.blockThreadLog k₁ t reason := by
  have hb := blocked_blockThread_of_sched hk hrun hsched reason
  exact h.blockThreadLog (hn ▸ hk.running_lt hrun) reason (hn ▸ hb.frame.disciplined.current_lt)

theorem executeProduceLog (h : Agree n m pids k k') (hk : Tables k)
    (hrun : k.runningThread = some t) (c : Clocks) :
    executeProduceLog c k' t = executeProduceLog c k t := by
  have ht : t < n := h.threadCount ▸ hk.running_lt hrun
  unfold FleetOS.executeProduceLog
  dsimp only
  rw [h.tcb ht, h.produced]
  set r := bufferProduce k.sensorBuf (k.currentTick * 100 + (k.tcb t).ownerPid) (k.tcb t).ownerPid
  have hset : Agree n m pids { k with sensorBuf := r.buf } { k' with sensorBuf := r.buf } :=
    h.setBuffer rfl
  rw [hset.blockRunningLog_of_sched hk hrun h.threadCount rfl,
    (hset.setTcb t threadExecute).wakeThreadsLog, h.sensorBuf, h.currentTick]

theorem executeConsumeLog (h : Agree n m pids k k') (hk : Tables k)
    (hrun : k.runningThread = some t) (c : Clocks) :
    executeConsumeLog c k' t = executeConsumeLog c k t := by
  have ht : t < n := h.threadCount ▸ hk.running_lt hrun
  have hr : bufferConsume k'.sensorBuf (k.tcb t).ownerPid =
      bufferConsume k.sensorBuf (k.tcb t).ownerPid := by rw [h.sensorBuf]
  unfold FleetOS.executeConsumeLog
  dsimp only
  rw [h.tcb ht, hr]
  set r := bufferConsume k.sensorBuf (k.tcb t).ownerPid
  have hset : Agree n m pids { k with sensorBuf := r.buf } { k' with sensorBuf := r.buf } :=
    h.setBuffer rfl
  rw [hset.blockRunningLog_of_sched hk hrun h.threadCount rfl,
    (hset.setTcb t threadExecute).wakeThreadsLog, h.sensorBuf, h.currentTick]

theorem executeAcquireLog (h : Agree n m pids k k') (hk : Tables k)
    (hrun : k.runningThread = some t) (hpid : (k.tcb t).ownerPid ∈ pids) (c : Clocks) :
    executeAcquireLog c k' t = executeAcquireLog c k t := by
  have ht : t < n := h.threadCount ▸ hk.running_lt hrun
  refine ite_eq (by rw [h.config]) (fun _ => ?_) fun _ => rfl
  dsimp only
  rw [h.tcb ht, h.wantedResource, h.graph.deadlockRequestLog]
  set pid := (k.tcb t).ownerPid
  have hr := h.graph.deadlockRequest hpid (FleetOS.wantedResource k pid)
  rw [hr.2, (h.setGraph hr.1).blockRunningLog_of_sched hk hrun h.threadCount rfl, h.currentTick]

theorem executeIoWriteLog (h : Agree n m pids k k') (hk : Tables k)
    (hrun : k.runningThread = some t) :
    executeIoWriteLog k' t = executeIoWriteLog k t := by
  have ht : t < n := h.threadCount ▸ hk.running_lt hrun
  unfold FleetOS.executeIoWriteLog
  dsimp only
  rw [h.tcb ht, h.ioSeq]
  set path := logPath (k.tcb t).ownerPid k.ioSeq
  have hset : Agree n m pids { k with ioSeq := k.ioSeq + 1, fs := (fsCreate k.fs path).1 }
      { k' with ioSeq := k.ioSeq + 1, fs := (fsCreate k'.fs path).1 } :=
    { h with ioSeq := rfl, fs := congrArg (fun fs => (fsCreate fs path).1) h.fs }
  have hadvance := hset.setTcb t TCB.advance
  rw [hadvance.blockRunningLog hk hrun h.threadCount rfl rfl rfl rfl, hadvance.currentTick]

theorem executeCommandLog (h : Agree n m pids k k') (hk : Tables k)
    (hrun : k.runningThread = some t) (hpid : (k.tcb t).ownerPid ∈ pids) (c : Clocks) :
    executeCommandLog c k' t = executeCommandLog c k t := by
  unfold FleetOS.executeCommandLog
  rw [h.tcb (h.threadCount ▸ hk.running_lt hrun)]
  cases threadCurrentCommand (k.tcb t) with
  | compute => rfl
  | produceData => exact h.executeProduceLog hk hrun c
  | consumeData => exact h.executeConsumeLog hk hrun c
  | acquireResource => exact h.executeAcquireLog hk hrun hpid c
  | ioWrite => exact h.executeIoWriteLog hk hrun

/-! ## The parts of a tick -/

theorem arriveLog (h : Agree n m pids k k') (hp : p < m) : arriveLog k' p = arriveLog k p := by
  unfold FleetOS.arriveLog
  rw [h.procs p hp, h.currentTick]

theorem ensureRunningLog (h : Agree n m pids k k') (hd : k.sched.Disciplined n) :
    ensureRunningLog k' = ensureRunningLog k := by
  refine ite_eq (by rw [h.runningThread hd.current_lt]) (fun _ => rfl) fun _ => ?_
  rw [h.currentTick]
  exact h.sched.schedulerNextLog hd.current_lt
    (Scheduler.frame_schedulerNext hd).disciplined.current_lt _

theorem retireLog (h : Agree n m pids k k') (ht : t < n) (c : Clocks) :
    retireLog c k' t = retireLog c k t := by
  refine ite_eq (by rw [h.tcb ht]) (fun _ => ?_) fun _ => rfl
  rw [h.endingProcess ht]
  cases he : FleetOS.endingProcess k t with
  | none => rfl
  | some p =>
    have hset := h.setSched (h.sched.schedulerTerminate t)
    exact hset.cleanupProcessLog (h.endingProcess_lt he) c _ false

theorem detectDeadlockLog (h : Agree n m pids k k') (c : Clocks) :
    detectDeadlockLog c k' = detectDeadlockLog c k := by
  unfold FleetOS.detectDeadlockLog
  rw [h.deadlockVictim]
  cases hv : FleetOS.deadlockVictim k with
  | none => rfl
  | some p =>
    have hp := h.deadlockVictim_lt hv
    dsimp only
    rw [h.procs p hp, h.handOverLog, h.currentTick,
      (h.applyWoken (h.graph.deadlockResolve _)).cleanupProcessLog hp]

theorem injectCrashLog (h : Agree n m pids k k') (hc : k.sched.CurrentLt n) (c : Clocks) :
    injectCrashLog c k' = injectCrashLog c k := by
  unfold FleetOS.injectCrashLog
  rw [h.crashedProcess hc]
  cases hp : FleetOS.crashedProcess k with
  | none => rfl
  | some p => exact h.cleanupProcessLog (h.crashedProcess_lt hp) c _ true

theorem triggerPageFaultLog (h : Agree n m pids k k') (hk : Tables k) :
    triggerPageFaultLog k' = triggerPageFaultLog k := by
  have hc : k.sched.CurrentLt n := h.threadCount ▸ hk.disciplined.current_lt
  refine ite_eq (by rw [h.config]) (fun _ => rfl) fun _ =>
    ite_eq (by rw [h.currentTick]) (fun _ => rfl) fun _ => ?_
  rw [h.runningThread hc]
  cases hrun : k.runningThread with
  | none => rfl
  | some t =>
    have ht := hc t (runningThread_some hrun).1
    dsimp only
    rw [h.tcb ht, h.findProc]
    cases hf : k.findProc (k.tcb t).ownerPid with
    | none => rfl
    | some p =>
      have hp := h.findProc_lt hf
      dsimp only
      rw [h.procs p hp]
      refine ite_eq Iff.rfl (fun _ => rfl) fun _ => ?_
      have hr : memAccess k'.mem (k.procs p) (memGetPageCount (k.procs p) * pageSize) =
          memAccess k.mem (k.procs p) (memGetPageCount (k.procs p) * pageSize) := by rw [h.mem]
      rw [hr]
      set r := memAccess k.mem (k.procs p) (memGetPageCount (k.procs p) * pageSize)
      have hset : Agree n m pids { k with mem := r.mem } { k' with mem := r.mem } :=
        { h with mem := rfl }
      refine ite_eq Iff.rfl (fun _ => ?_) fun _ => rfl
      rw [hset.blockRunningLog_of_sched hk hrun h.threadCount rfl, h.currentTick]

theorem wakeConsumersLog (h : Agree n m pids k k') : wakeConsumersLog k' = wakeConsumersLog k := by
  unfold FleetOS.wakeConsumersLog
  rw [h.sensorBuf]
  exact ite_eq Iff.rfl (fun _ => (h.setBuffer rfl).wakeThreadsLog _) fun _ => rfl

theorem wakeProducersLog (h : Agree n m pids k k') : wakeProducersLog k' = wakeProducersLog k := by
  unfold FleetOS.wakeProducersLog
  rw [h.sensorBuf]
  exact ite_eq Iff.rfl (fun _ => (h.setBuffer rfl).wakeThreadsLog _) fun _ => rfl

theorem wakeLockerLog (h : Agree n m pids k k') : wakeLockerLog k' = wakeLockerLog k := by
  unfold FleetOS.wakeLockerLog
  rw [h.sensorBuf]
  exact ite_eq Iff.rfl (fun _ => (h.setBuffer rfl).wakeThreadsLog _) fun _ => rfl

theorem wakeBufferWaitersLog (h : Agree n m pids k k') :
    wakeBufferWaitersLog k' = wakeBufferWaitersLog k := by
  unfold FleetOS.wakeBufferWaitersLog
  rw [h.wakeConsumersLog, h.wakeConsumers.wakeProducersLog,
    h.wakeConsumers.wakeProducers.wakeLockerLog]

/-! ## Snapshots -/

theorem ownThreads (h : Agree n m pids k k') (pid : ℤ) : k'.ownThreads pid = k.ownThreads pid := by
  unfold Kernel.ownThreads
  rw [h.threads]
  refine List.filter_congr fun t ht => ?_
  rw [h.tcb (h.lt_of_mem ht)]

theorem tcb_of_mem_own (h : Agree n m pids k k') {pid : ℤ} (ht : t ∈ k.ownThreads pid) :
    k'.tcb t = k.tcb t :=
  h.tcb (h.lt_of_mem (List.mem_filter.mp ht).1)

theorem selectPrimaryThread (h : Agree n m pids k k') (pid : ℤ) :
    selectPrimaryThread k' pid = selectPrimaryThread k pid := by
  have hfirst (s : ThreadState) : ((k.ownThreads pid).find? fun t => (k'.tcb t).state = s) =
      (k.ownThreads pid).find? fun t => (k.tcb t).state = s :=
    List.find?_congr fun t ht => by rw [h.tcb_of_mem_own ht]
  unfold FleetOS.selectPrimaryThread
  rw [h.ownThreads]
  simp only [hfirst]

theorem primaryThreadToJson (h : Agree n m pids k k') (pid : ℤ) (bufsize : ℕ) :
    primaryThreadToJson k' pid bufsize = primaryThreadToJson k pid bufsize := by
  unfold FleetOS.primaryThreadToJson
  rw [h.selectPrimaryThread]
  cases hs : FleetOS.selectPrimaryThread k pid with
  | none => rfl
  | some t =>
    exact congrArg (threadToJson · bufsize) (h.tcb_of_mem_own (mem_of_selectPrimaryThread hs))

theorem pcbTexts (h : Agree n m pids k k') (c : PCB) : pcbTexts k' c = pcbTexts k c := by
  have hown : ((k.ownThreads c.pid).map fun t => (threadToJson (k'.tcb t) 256).text) =
      (k.ownThreads c.pid).map fun t => (threadToJson (k.tcb t) 256).text :=
    List.map_congr_left fun t ht => by rw [h.tcb_of_mem_own ht]
  unfold FleetOS.pcbTexts
  rw [h.primaryThreadToJson, h.ownThreads, hown]

theorem shownProcs (h : Agree n m pids k k') : k'.shownProcs = k.shownProcs := by
  unfold Kernel.shownProcs
  rw [h.procCount, h.procCount']
  refine List.filter_congr fun p hp => ?_
  rw [h.procs p (List.mem_range.mp hp)]

theorem snapshot (h : Agree n m pids k k') (hd : k.sched.Disciplined n) :
    snapshot k' = snapshot k := by
  have hprocs : (k.shownProcs.map fun p => (pcbToJsonWithThreads k' (k'.procs p) 2048).text) =
      k.shownProcs.map fun p => (pcbToJsonWithThreads k (k.procs p) 2048).text := by
    refine List.map_congr_left fun p hp => ?_
    have hpm : p < m := h.procCount ▸ List.mem_range.mp (List.mem_filter.mp hp).1
    rw [pcbToJsonWithThreads, pcbToJsonWithThreads, h.procs p hpm, h.pcbTexts]
  have hsched : schedulerToJson k'.sched 1024 = schedulerToJson k.sched 1024 := by
    rw [schedulerToJson, schedulerToJson, h.sched.schedulerTexts hd.toSound]
  unfold FleetOS.snapshot snapshotTexts
  rw [h.shownProcs, hprocs, h.mem, hsched, h.fs, h.sensorBuf]

theorem snapshotLog (h : Agree n m pids k k') (hd : k.sched.Disciplined n) :
    snapshotLog k' = snapshotLog k := by
  refine ite_eq (by rw [h.currentTick]) (fun _ => ?_) fun _ => rfl
  have hsched : (FleetOS.snapshotSync k).sched = k.sched := sched_snapshotSync k
  rw [h.snapshotSync.snapshot (hsched ▸ hd), h.currentTick]

/-! ## The loop -/

theorem partLog {x x' : Kernel × Phase} (h : AgreeAt n m pids x x') (hx : MachineTables x)
    (hpids : ∀ p < m, (x.1.procs p).pid ∈ pids) (c : Clocks) : partLog c x' = partLog c x := by
  obtain ⟨k, ph⟩ := x
  obtain ⟨k', ph'⟩ := x'
  obtain ⟨h, rfl⟩ : Agree n m pids k k' ∧ ph' = ph := h
  have hn : k.threadCount = n := h.threadCount
  have hd : k.sched.Disciplined n := hn ▸ hx.tables.disciplined
  unfold FleetOS.partLog
  cases ph' with
  | top => exact ite_eq (by rw [h.config, h.currentTick]) (fun _ => by rw [h.currentTick]) fun _ => rfl
  | arrivals =>
    dsimp only
    rw [h.procCount, h.procCount']
    exact foldOut_eq (fun p hp _ _ hc => hc.arrive (List.mem_range.mp hp))
      (fun p hp _ _ hc => hc.arriveLog (List.mem_range.mp hp)) h
  | ioEvents =>
    dsimp only
    rw [h.pendingCount]
    exact foldOut_eq (fun i _ _ _ hc => hc.completeIoEvent i)
      (fun i _ _ _ hc => hc.completeIoEventLog i) h
  | pageFaults =>
    dsimp only
    rw [h.pendingCount]
    exact foldOut_eq (fun i _ _ _ hc => hc.completePageFault i)
      (fun i _ _ _ hc => hc.completePageFaultLog i) h
  | compact => rfl
  | dispatch => exact h.ensureRunningLog hd
  | execute =>
    dsimp only
    rw [h.runningThread hd.current_lt]
    cases hrun : k.runningThread with
    | none => rfl
    | some t =>
      obtain ⟨p, hp, he⟩ := hx.tables.owner t (hx.tables.running_lt hrun)
      exact h.executeCommandLog hx.tables hrun (he ▸ hpids p (h.procCount ▸ hp)) c
  | retire t => exact h.retireLog (hn ▸ hx.retiring t rfl) c
  | detect => exact h.detectDeadlockLog c
  | crash => exact h.injectCrashLog hd.current_lt c
  | pageFault => exact h.triggerPageFaultLog hx.tables
  | schedTick =>
    dsimp only
    rw [h.currentTick]
    exact h.sched.schedulerTickLog hd _
  | waitTime => rfl
  | snapshot => exact h.snapshotLog hd
  | wakeWaiters => exact h.wakeBufferWaitersLog
  | finish => exact ite_eq (by rw [h.allTerminated]) (fun _ => by rw [h.currentTick]) fun _ => rfl
  | halted => rfl

end Kernel.Agree

end FleetOS
