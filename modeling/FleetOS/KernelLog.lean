import FleetOS.Cleanup
import FleetOS.Log
import FleetOS.ResourceGrants

/-!
# Log lines of the kernel

The lines that the functions of `kernel.c` print, and with them those of a part of the tick loop
(`partLog`). The resource graph and the buffer log with the tick the kernel has set for them
(`Clocks`).
-/

namespace FleetOS

open Printing TwoRuns

/-- `deadlock_tick` and `sync_tick`. -/
structure Clocks where
  deadlockTick : ℤ
  syncTick : ℤ

/-! ## Blocking and waking -/

def threadFields (t : TCB) : List CString :=
  [intField "tid" t.tid, intField "owner_pid" t.ownerPid]

/-- What is logged about the process of a thread, once its state is up to date. -/
def ownerLog (k : Kernel) (t : ℕ) (lines : PCB → List CString) : List CString :=
  match k.findProc (k.tcb t).ownerPid with
  | none => []
  | some p => lines ((syncPcbStateFromThreads k p).procs p)

def blockThreadLog (k : Kernel) (t : ℕ) (reason : BlockReason) : List CString :=
  if (k.tcb t).state = .blocked then []
  else
    let k := k.setTcb t fun c => threadBlock c reason
    let switch := schedulerBlockLog k.sched t k.currentTick
    let k := { k with sched := schedulerBlock k.sched t }
    switch ++
      [loggerLog k.currentTick "THREAD" .info "Thread blocked" (dataObject 256
        (threadFields (k.tcb t) ++ [textField "reason" (blockReasonToString reason)]))] ++
      ownerLog k t fun pcb =>
        [loggerLog k.currentTick "SCHED" .info "Process blocked" (dataObject 128
          [intField "pid" pcb.pid, textField "reason" (blockReasonToString pcb.blockedReason)])]

def unblockThreadLog (k : Kernel) (t : ℕ) : List CString :=
  let k := k.setTcb t threadUnblock
  let k := { k with sched := schedulerUnblock k.sched t }
  [loggerLog k.currentTick "THREAD" .info "Thread unblocked" (dataObject 128
    (threadFields (k.tcb t)))] ++
    ownerLog k t fun pcb =>
      if pcb.state = .ready ∨ pcb.state = .running then
        [loggerLog k.currentTick "SCHED" .info "Process unblocked" (dataObject 64
          [intField "pid" pcb.pid])]
      else []

/-- One thread of the loops that wake the threads of a process. -/
def unblockIf (pid : ℤ) (reason : BlockReason) (k : Kernel) (t : ℕ) : Kernel :=
  if (k.tcb t).ownerPid = pid ∧ (k.tcb t).state = .blocked ∧ (k.tcb t).waitReason = reason then
    unblockThread k t
  else k

def unblockIfLog (pid : ℤ) (reason : BlockReason) (k : Kernel) (t : ℕ) : List CString :=
  if (k.tcb t).ownerPid = pid ∧ (k.tcb t).state = .blocked ∧ (k.tcb t).waitReason = reason then
    unblockThreadLog k t
  else []

def unblockOwnedLog (k : Kernel) (pid : ℤ) (reason : BlockReason) : List CString :=
  foldOut (unblockIf pid reason) (unblockIfLog pid reason) k k.threads

/-- One id of the loops that wake the threads of a wait queue. -/
def wakeId (k : Kernel) (id : ℤ) : Kernel :=
  match findThread k id with
  | none => k
  | some t => if (k.tcb t).state = .blocked then unblockThread k t else k

def wakeIdLog (k : Kernel) (id : ℤ) : List CString :=
  match findThread k id with
  | none => []
  | some t => if (k.tcb t).state = .blocked then unblockThreadLog k t else []

def wakeThreadsLog (k : Kernel) (ids : List ℤ) : List CString := foldOut wakeId wakeIdLog k ids

/-! ## The end of a process -/

/-- One thread of the loop in `deadlock_wake_callback`. -/
def wakeGranted (pid : ℤ) (k : Kernel) (t : ℕ) : Kernel :=
  if (k.tcb t).ownerPid = pid ∧ (k.tcb t).state = .blocked ∧
      (k.tcb t).waitReason = .resourceWait then
    let k := unblockThread k t
    let k := { k with
      deadlockPhase := Function.update k.deadlockPhase pid (k.deadlockPhase pid + 1) }
    k.setTcb t TCB.advance
  else k

def deadlockWakeCallbackLog (k : Kernel) (pid : ℤ) : List CString :=
  foldOut (wakeGranted pid) (unblockIfLog pid .resourceWait) k k.threads

/-- The allocations to the waiters, each with what the callback logs. -/
def applyWokenLog (c : Clocks) (k : Kernel) (served : List (ℤ × ℤ)) : List CString :=
  foldOut (fun k grant => deadlockWakeCallback k grant.1)
    (fun k grant =>
      resourceLine "Resource allocated" grant.1 grant.2 c.deadlockTick ::
        deadlockWakeCallbackLog k grant.1)
    k served

/-- A process gives its resources back, and waiters get them. -/
def handOverLog (c : Clocks) (k : Kernel) (pid : ℤ) : List CString :=
  let g := deadlockCleanupProcess k.graph pid
  deadlockCleanupProcessLog k.graph pid c.deadlockTick ++
    applyWokenLog c { k with graph := (wakeAllWaiters g).1 }
      (ResourceGraph.wakeGrants resourceIndices g)

/-- One thread of the loop that ends the threads of a process. -/
def endThread (pid : ℤ) (k : Kernel) (t : ℕ) : Kernel :=
  if (k.tcb t).ownerPid = pid ∧ (k.tcb t).state ≠ .done then
    k.setTcb t fun c => { c with state := .done }
  else k

def endThreadLog (pid : ℤ) (k : Kernel) (t : ℕ) : List CString :=
  if (k.tcb t).ownerPid = pid ∧ (k.tcb t).state ≠ .done then
    [loggerLog k.currentTick "THREAD" .info "Thread terminated" (dataObject 256
      [intField "tid" (k.tcb t).tid, intField "owner_pid" pid, textField "state" "T_DONE".toList])]
  else []

def endThreadsLog (k : Kernel) (pid : ℤ) : List CString :=
  foldOut (endThread pid) (endThreadLog pid) k k.threads

/-- Whether the reason for a cleanup is logged as a fault. -/
def isFault (reason : String) : Bool :=
  reason = "Crash injected" ∨ reason.toList.take 8 = "Deadlock".toList

/-- A process taken out of the events, the buffer and, for `release`, the graph and the files. -/
def takeOut (k : Kernel) (pid : ℤ) (release : Bool) : Kernel :=
  if release then releaseResources (withdraw k pid) pid else withdraw k pid

def cleanupProcessLog (c : Clocks) (k : Kernel) (p : ℕ) (reason : String) (release : Bool) :
    List CString :=
  let pid := (k.procs p).pid
  let unlocked := bufferReleaseMutexLog (bufferRemovePid k.sensorBuf pid) pid c.syncTick
  let released := if release then handOverLog c (withdraw k pid) pid else []
  let k := takeOut k pid release
  let freed := memFreeProcessLog k.mem (k.procs p)
  let k := terminate k p
  unlocked ++ released ++ freed ++ endThreadsLog k pid ++
    [loggerLog k.currentTick (if isFault reason then "FAULT" else "KERNEL")
      (if isFault reason then .critical else .info) reason
      (dataObject 128 [intField "pid" pid, textField "name" (k.procs p).name])]

/-! ## Pending events -/

def completeIoEventLog (k : Kernel) (i : ℕ) : List CString :=
  if !k.due .ioBlock i then []
  else
    let e := k.pending i
    match k.findProc e.pid with
    | none => []
    | some _ =>
      let data := sensorData e.pid e.completionTick
      loggerLog k.currentTick "FS" .info "I/O completed"
          (dataObject 256 [intField "pid" e.pid, textField "path" e.path]) ::
        unblockOwnedLog { k with fs := (fsWrite k.fs e.path data data.length).1 } e.pid .ioBlock

def completePageFaultLog (k : Kernel) (i : ℕ) : List CString :=
  if !k.due .pageFault i then []
  else
    let e := k.pending i
    match k.findProc e.pid with
    | none => []
    | some p =>
      let r := resolvePageFault k.mem k.procs k.procCount p e.page
      memAllocatePageLog k.mem (k.procs p) e.page ++
        [loggerLog k.currentTick "MEM" .info "Page fault resolved" []] ++
        unblockOwnedLog { k with mem := r.1, procs := r.2 } (k.procs p).pid .pageFault

/-! ## Commands -/

/-- The fields of the line for an item that went through the buffer. -/
def itemFields (pid item : ℤ) (b : BoundedBuffer) : List CString :=
  [intField "pid" pid, intField "item" item, intField "buf_count" b.count]

def executeProduceLog (c : Clocks) (k : Kernel) (t : ℕ) : List CString :=
  let pid := (k.tcb t).ownerPid
  let item := k.currentTick * 100 + pid
  let r := bufferProduce k.sensorBuf item pid
  let calls := bufferCallLog k.sensorBuf pid c.syncTick
  let k := { k with sensorBuf := r.buf }
  if r.ret < 0 then calls ++ blockThreadLog k t .mutexWait
  else
    calls ++
      loggerLog k.currentTick "SYNC" .info "Data produced" (dataObject 128 (itemFields pid item r.buf)) ::
        wakeThreadsLog (k.setTcb t threadExecute) r.wakePids

def executeConsumeLog (c : Clocks) (k : Kernel) (t : ℕ) : List CString :=
  let pid := (k.tcb t).ownerPid
  let r := bufferConsume k.sensorBuf pid
  let calls := bufferCallLog k.sensorBuf pid c.syncTick
  let k := { k with sensorBuf := r.buf }
  if r.ret < 0 then calls ++ blockThreadLog k t .mutexWait
  else
    calls ++
      loggerLog k.currentTick "SYNC" .info "Data consumed"
          (dataObject 128 (itemFields pid (r.item.getD 0) r.buf)) ::
        wakeThreadsLog (k.setTcb t threadExecute) r.wakePids

def executeAcquireLog (c : Clocks) (k : Kernel) (t : ℕ) : List CString :=
  if k.config.deadlockEnabled then
    let pid := (k.tcb t).ownerPid
    let rid := wantedResource k pid
    let r := deadlockRequest k.graph pid rid
    let request := deadlockRequestLog k.graph pid rid c.deadlockTick
    let k := { k with graph := r.1 }
    if r.2 = 0 then request ++ [resourceLine "Resource acquired" pid rid k.currentTick]
    else if r.2 = 1 then request ++ [resourceLine "Resource already held" pid rid k.currentTick]
    else request ++ blockThreadLog k t .resourceWait
  else []

def executeIoWriteLog (k : Kernel) (t : ℕ) : List CString :=
  let pid := (k.tcb t).ownerPid
  let path := logPath pid k.ioSeq
  let k := { k with ioSeq := k.ioSeq + 1, fs := (fsCreate k.fs path).1 }
  let k := k.setTcb t TCB.advance
  loggerLog k.currentTick "FS" .info "I/O write started" (dataObject 128
      [intField "pid" pid, textField "path" path, intField "duration" ioDuration]) ::
    blockThreadLog k t .ioBlock

def executeCommandLog (c : Clocks) (k : Kernel) (t : ℕ) : List CString :=
  match threadCurrentCommand (k.tcb t) with
  | .compute => []
  | .produceData => executeProduceLog c k t
  | .consumeData => executeConsumeLog c k t
  | .acquireResource => executeAcquireLog c k t
  | .ioWrite => executeIoWriteLog k t

/-! ## The parts of a tick -/

def arriveLog (k : Kernel) (p : ℕ) : List CString :=
  let pcb := k.procs p
  if pcb.state = .new ∧ pcb.arrivalTime ≤ k.currentTick then
    [loggerLog k.currentTick "KERNEL" .info "Process arrived" (dataObject 128
      [intField "pid" pcb.pid, textField "name" pcb.name,
        textField "priority" (priorityToString pcb.priority)])]
  else []

def ensureRunningLog (k : Kernel) : List CString :=
  if k.runningThread.isSome then [] else schedulerNextLog k.sched k.currentTick

def retireLog (c : Clocks) (k : Kernel) (t : ℕ) : List CString :=
  if (k.tcb t).state = .running ∧ (k.tcb t).burstRemaining ≤ 0 then
    match endingProcess k t with
    | none => []
    | some p =>
      cleanupProcessLog c { k with sched := schedulerTerminate k.sched t } p "Process terminated" false
  else []

def detectDeadlockLog (c : Clocks) (k : Kernel) : List CString :=
  match deadlockVictim k with
  | none => []
  | some p =>
    let pid := (k.procs p).pid
    let resolved :=
      if ¬validPid pid then []
      else
        loggerLog k.currentTick "DEADLOCK" .warn "Deadlock detected, killing victim"
          (dataObject 128 [intField "victim_pid" pid]) :: handOverLog c k pid
    resolved ++
      cleanupProcessLog c (applyWoken k (deadlockResolve k.graph pid)) p
        "Deadlock victim terminated" false

def injectCrashLog (c : Clocks) (k : Kernel) : List CString :=
  match crashedProcess k with
  | none => []
  | some p => cleanupProcessLog c k p "Crash injected" true

def triggerPageFaultLog (k : Kernel) : List CString :=
  if k.config.deadlockEnabled then []
  else if k.currentTick ≤ 0 ∨ k.currentTick % pageFaultInterval ≠ 0 then []
  else
    match k.runningThread with
    | none => []
    | some t =>
      match k.findProc (k.tcb t).ownerPid with
      | none => []
      | some p =>
        let nextPage := memGetPageCount (k.procs p)
        if maxPages ≤ nextPage then []
        else
          let r := memAccess k.mem (k.procs p) (nextPage * pageSize)
          let k := { k with mem := r.mem }
          if r.ret < 0 then
            loggerLog k.currentTick "MEM" .warn "Page fault" (dataObject 128
                [intField "pid" (k.procs p).pid, intField "page" (r.faultPage.getD 0)]) ::
              blockThreadLog k t .pageFault
          else []

def snapshotLog (k : Kernel) : List CString :=
  if k.currentTick % snapshotInterval = 0 then
    [loggerSnapshot k.currentTick (snapshot (snapshotSync k)).text]
  else []

def wakeConsumersLog (k : Kernel) : List CString :=
  if 0 < k.sensorBuf.count then
    let r := condBroadcast k.sensorBuf.notEmpty maxProcs
    wakeThreadsLog { k with sensorBuf := { k.sensorBuf with notEmpty := r.1 } } r.2
  else []

def wakeProducersLog (k : Kernel) : List CString :=
  if k.sensorBuf.count < ringBufferSize then
    let r := condBroadcast k.sensorBuf.notFull maxProcs
    wakeThreadsLog { k with sensorBuf := { k.sensorBuf with notFull := r.1 } } r.2
  else []

def wakeLockerLog (k : Kernel) : List CString :=
  if !k.sensorBuf.mutex.locked ∧ 0 < k.sensorBuf.mutex.waitQueue.length then
    let m := k.sensorBuf.mutex
    wakeThreadsLog
      { k with sensorBuf := { k.sensorBuf with mutex := { m with waitQueue := m.waitQueue.tail } } }
      [m.waitQueue.headD 0]
  else []

def wakeBufferWaitersLog (k : Kernel) : List CString :=
  wakeConsumersLog k ++ wakeProducersLog (wakeConsumers k) ++
    wakeLockerLog (wakeProducers (wakeConsumers k))

/-- What one part of the loop prints. -/
def partLog (c : Clocks) : Kernel × Phase → List CString
  | (k, .top) =>
    if 0 < k.config.maxTicks ∧ k.config.maxTicks ≤ k.currentTick then
      [loggerLog k.currentTick "KERNEL" .info "Simulation completed" []]
    else []
  | (k, .arrivals) => foldOut arrive arriveLog k (List.range k.procCount)
  | (k, .ioEvents) => foldOut completeIoEvent completeIoEventLog k (List.range k.pendingCount)
  | (k, .pageFaults) => foldOut completePageFault completePageFaultLog k (List.range k.pendingCount)
  | (_, .compact) => []
  | (k, .dispatch) => ensureRunningLog k
  | (k, .execute) => (k.runningThread.map (executeCommandLog c k)).getD []
  | (k, .retire t) => retireLog c k t
  | (k, .detect) => detectDeadlockLog c k
  | (k, .crash) => injectCrashLog c k
  | (k, .pageFault) => triggerPageFaultLog k
  | (k, .schedTick) => schedulerTickLog k.sched k.currentTick
  | (_, .waitTime) => []
  | (k, .snapshot) => snapshotLog k
  | (k, .wakeWaiters) => wakeBufferWaitersLog k
  | (k, .finish) =>
    if allTerminated k then
      [loggerLog k.currentTick "KERNEL" .info "All processes terminated" []]
    else []
  | (_, .halted) => []

end FleetOS
