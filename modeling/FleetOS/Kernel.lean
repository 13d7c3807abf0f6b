import FleetOS.Deadlock
import FleetOS.FileSystem
import FleetOS.Memory
import FleetOS.Scheduler
import FleetOS.Sync

/-!
# The kernel

`kernel.c` : the state of all modules together, the functions that block, wake and clean up,
and the tick loop. The loop is a machine of phases : `machineStep` carries out one numbered
part of the loop body, so that a run can be looked at between any two of them.

`kernelInit` is given the processes and threads as a workload, of which the four drones of
`kernel_init` are one (`droneWorkload`), and the memory that it finds, since it does not
overwrite all of it. The log lines are in `KernelLog`, the snapshots in `Snapshots`, the metrics
in `Statics` and the interactive mode in `Interactive`.
-/

namespace FleetOS

structure PendingEvent where
  pid : ℤ
  completionTick : ℤ
  reason : BlockReason
  path : CString
  page : ℤ
  active : Bool
  deriving DecidableEq

structure KernelConfig where
  schedMode : SchedMode
  maxTicks : ℤ
  deadlockEnabled : Bool
  crashEnabled : Bool

structure Kernel where
  config : KernelConfig
  currentTick : ℤ
  procs : ℕ → PCB
  procCount : ℕ
  sched : Scheduler
  threadCount : ℕ
  /-- The array has `2 * MAX_PROCS` slots. -/
  pending : ℕ → PendingEvent
  pendingCount : ℕ
  sensorBuf : BoundedBuffer
  ioSeq : ℤ
  mem : PhysicalMemory
  fs : FileSystem
  graph : ResourceGraph
  deadlockPhase : ℤ → ℤ

def maxPending : ℕ := maxProcs * 2

namespace Kernel

def tcb (k : Kernel) (t : ℕ) : TCB := k.sched.tcb t

def setTcb (k : Kernel) (t : ℕ) (f : TCB → TCB) : Kernel := { k with sched := k.sched.setTcb t f }

def setProc (k : Kernel) (p : ℕ) (f : PCB → PCB) : Kernel :=
  { k with procs := Function.update k.procs p (f (k.procs p)) }

def setPending (k : Kernel) (i : ℕ) (f : PendingEvent → PendingEvent) : Kernel :=
  { k with pending := Function.update k.pending i (f (k.pending i)) }

/-- The thread indices, in the order of the loops over `all_threads`. -/
def threads (k : Kernel) : List ℕ := List.range k.threadCount

end Kernel

def findThread (k : Kernel) (tid : ℤ) : Option ℕ := k.threads.find? fun t => (k.tcb t).tid = tid

/-- The process with this pid. -/
def Kernel.findProc (k : Kernel) (pid : ℤ) : Option ℕ := FleetOS.findProc k.procs k.procCount pid

/-! ## Blocking and waking -/

def syncPcbStateFromThreads (k : Kernel) (p : ℕ) : Kernel :=
  let pcb := k.procs p
  if pcb.state = .terminated ∨ pcb.state = .new then k
  else
    let live := k.threads.filter fun t => (k.tcb t).ownerPid = pcb.pid ∧ (k.tcb t).state ≠ .done
    if live = [] then k
    else if live.any fun t => (k.tcb t).state = .running then
      k.setProc p fun c => { pcbSetState c .running with blockedReason := .none }
    else if live.any fun t => (k.tcb t).state = .ready then
      k.setProc p fun c => { pcbSetState c .ready with blockedReason := .none }
    else
      let first := live.find? fun t => (k.tcb t).state = .blocked
      k.setProc p fun c => { pcbSetState c .blocked with
        blockedReason := (first.map fun t => (k.tcb t).waitReason).getD .none }

/-- Bring the state of the process of a thread up to date. -/
def syncOwner (k : Kernel) (t : ℕ) : Kernel :=
  match k.findProc (k.tcb t).ownerPid with
  | none => k
  | some p => syncPcbStateFromThreads k p

def blockThread (k : Kernel) (t : ℕ) (reason : BlockReason) : Kernel :=
  if (k.tcb t).state = .blocked then k
  else
    let k := k.setTcb t fun c => threadBlock c reason
    syncOwner { k with sched := schedulerBlock k.sched t } t

def unblockThread (k : Kernel) (t : ℕ) : Kernel :=
  let k := k.setTcb t threadUnblock
  syncOwner { k with sched := schedulerUnblock k.sched t } t

/-- The loops that wake the threads of a process that are blocked for one reason. -/
def unblockOwned (k : Kernel) (pid : ℤ) (reason : BlockReason) : Kernel :=
  k.threads.foldl
    (fun k t =>
      if (k.tcb t).ownerPid = pid ∧ (k.tcb t).state = .blocked ∧ (k.tcb t).waitReason = reason then
        unblockThread k t
      else k)
    k

/-- Wake the threads whose ids came out of a wait queue of the buffer. -/
def wakeThreads (k : Kernel) (ids : List ℤ) : Kernel :=
  ids.foldl
    (fun k id =>
      match findThread k id with
      | none => k
      | some t => if (k.tcb t).state = .blocked then unblockThread k t else k)
    k

def processHasLiveThreads (k : Kernel) (pid : ℤ) : Bool :=
  k.threads.any fun t => (k.tcb t).ownerPid = pid ∧ (k.tcb t).state ≠ .done

/-! ## The end of a process -/

/-- Called for a waiter that was given its resource. -/
def deadlockWakeCallback (k : Kernel) (pid : ℤ) : Kernel :=
  k.threads.foldl
    (fun k t =>
      if (k.tcb t).ownerPid = pid ∧ (k.tcb t).state = .blocked ∧
          (k.tcb t).waitReason = .resourceWait then
        let k := unblockThread k t
        let k := { k with
          deadlockPhase := Function.update k.deadlockPhase pid (k.deadlockPhase pid + 1) }
        k.setTcb t TCB.advance
      else k)
    k

/-- Take over a graph and run the callback for the waiters that were served. -/
def applyWoken (k : Kernel) (r : ResourceGraph × List ℤ) : Kernel :=
  r.2.foldl deadlockWakeCallback { k with graph := r.1 }

/-- Cancel the events of a process. -/
def cancelPending (k : Kernel) (pid : ℤ) : Kernel :=
  { k with
    pending := fun i =>
      if i < k.pendingCount ∧ (k.pending i).active ∧ (k.pending i).pid = pid then
        { k.pending i with active := false }
      else k.pending i }

/-- Mark the threads of a process done. -/
def endThreads (k : Kernel) (pid : ℤ) : Kernel :=
  k.threads.foldl
    (fun k t =>
      if (k.tcb t).ownerPid = pid ∧ (k.tcb t).state ≠ .done then
        k.setTcb t fun c => { c with state := .done }
      else k)
    k

/-- The part of the cleanup that gives resources and files back. -/
def releaseResources (k : Kernel) (pid : ℤ) : Kernel :=
  let k := applyWoken k (wakeAllWaiters (deadlockCleanupProcess k.graph pid))
  { k with fs := fsCleanupProcess k.fs pid }

def cleanupProcess (k : Kernel) (p : ℕ) (release : Bool) : Kernel :=
  let pid := (k.procs p).pid
  let k := cancelPending k pid
  let k := { k with sensorBuf := bufferReleaseMutex (bufferRemovePid k.sensorBuf pid) pid }
  let k := if release then releaseResources k pid else k
  let r := memFreeProcess k.mem (k.procs p)
  let k := { k.setProc p fun _ => r.2 with mem := r.1 }
  let k := k.setProc p fun c => { pcbSetState c .terminated with completionTick := k.currentTick }
  endThreads k pid

/-! ## Pending events -/

def compactPendingEvents (k : Kernel) : Kernel :=
  let r := (List.range k.pendingCount).foldl
    (fun (s : (ℕ → PendingEvent) × ℕ) read =>
      if (s.1 read).active then
        (if s.2 ≠ read then Function.update s.1 s.2 (s.1 read) else s.1, s.2 + 1)
      else s)
    (k.pending, 0)
  { k with pending := r.1, pendingCount := r.2 }

/-- Whether slot `i` holds an event for `reason` whose time has come. -/
def Kernel.due (k : Kernel) (reason : BlockReason) (i : ℕ) : Bool :=
  (k.pending i).active ∧ (k.pending i).reason = reason ∧
    (k.pending i).completionTick ≤ k.currentTick

/-- The bytes a completed write appends to its file. -/
def sensorData (pid tick : ℤ) : List UInt8 :=
  ((("drone=" ++ toString pid ++ " tick=" ++ toString tick ++ " sensor_data").toList.take 63).map
    fun c => c.toNat.toUInt8)

def completeIoEvent (k : Kernel) (i : ℕ) : Kernel :=
  if !k.due .ioBlock i then k
  else
    let e := k.pending i
    let k :=
      match k.findProc e.pid with
      | none => k
      | some _ =>
        let data := sensorData e.pid e.completionTick
        unblockOwned { k with fs := (fsWrite k.fs e.path data data.length).1 } e.pid .ioBlock
    k.setPending i fun e => { e with active := false }

def completeIoEvents (k : Kernel) : Kernel := (List.range k.pendingCount).foldl completeIoEvent k

def completePageFault (k : Kernel) (i : ℕ) : Kernel :=
  if !k.due .pageFault i then k
  else
    let e := k.pending i
    let k :=
      match k.findProc e.pid with
      | none => k
      | some p =>
        let r := resolvePageFault k.mem k.procs k.procCount p e.page
        unblockOwned { k with mem := r.1, procs := r.2 } (k.procs p).pid .pageFault
    k.setPending i fun e => { e with active := false }

def completePageFaults (k : Kernel) : Kernel :=
  (List.range k.pendingCount).foldl completePageFault k

/-- The event of an I/O write takes the first free slot of the array. -/
def registerIo (k : Kernel) (pid : ℤ) (path : CString) : Kernel :=
  match (List.range maxPending).find? fun i => !(k.pending i).active with
  | none => k
  | some i =>
    let k := k.setPending i fun e => { e with
      pid := pid
      completionTick := k.currentTick + ioDuration
      reason := .ioBlock
      path := path.take 63
      active := true }
    if k.pendingCount ≤ i then { k with pendingCount := i + 1 } else k

/-- The event of a page fault takes the first free slot below the count, or the next one. -/
def registerPageFault (k : Kernel) (pid page : ℤ) : Kernel :=
  let event (e : PendingEvent) : PendingEvent := { e with
    pid := pid
    completionTick := k.currentTick + pageFaultDuration
    reason := .pageFault
    page := page
    active := true }
  match (List.range k.pendingCount).find? fun i => !(k.pending i).active with
  | some i => k.setPending i event
  | none =>
    if k.pendingCount < maxPending then
      { k.setPending k.pendingCount event with pendingCount := k.pendingCount + 1 }
    else k

/-! ## Commands -/

/-- A produced item goes into the buffer, or the thread blocks. -/
def executeProduce (k : Kernel) (t : ℕ) : Kernel :=
  let pid := (k.tcb t).ownerPid
  let r := bufferProduce k.sensorBuf (k.currentTick * 100 + pid) pid
  let k := { k with sensorBuf := r.buf }
  if r.ret < 0 then blockThread k t .mutexWait
  else wakeThreads (k.setTcb t threadExecute) r.wakePids

def executeConsume (k : Kernel) (t : ℕ) : Kernel :=
  let r := bufferConsume k.sensorBuf (k.tcb t).ownerPid
  let k := { k with sensorBuf := r.buf }
  if r.ret < 0 then blockThread k t .mutexWait
  else wakeThreads (k.setTcb t threadExecute) r.wakePids

/-- The resource a process asks for next. -/
def wantedResource (k : Kernel) (pid : ℤ) : ℤ :=
  if pid = 0 then
    if k.deadlockPhase 0 = 0 then resourceLandingPad else resourceChargeStation
  else if pid = 1 then
    if k.deadlockPhase 1 = 0 then resourceChargeStation else resourceLandingPad
  else resourceCommChannel

def executeAcquire (k : Kernel) (t : ℕ) : Kernel :=
  if k.config.deadlockEnabled then
    let pid := (k.tcb t).ownerPid
    let r := deadlockRequest k.graph pid (wantedResource k pid)
    let k := { k with graph := r.1 }
    if r.2 = 0 then
      { k with deadlockPhase := Function.update k.deadlockPhase pid (k.deadlockPhase pid + 1) }.setTcb
        t TCB.advance
    else if r.2 = 1 then k.setTcb t TCB.advance
    else blockThread k t .resourceWait
  else k.setTcb t threadExecute

/-- The file of the `seq`-th I/O write. -/
def logPath (pid seq : ℤ) : CString :=
  ("/logs/drone_" ++ toString pid ++ "_seq_" ++ toString seq ++ ".log").toList.take 63

def executeIoWrite (k : Kernel) (t : ℕ) : Kernel :=
  let pid := (k.tcb t).ownerPid
  let path := logPath pid k.ioSeq
  let k := { k with ioSeq := k.ioSeq + 1, fs := (fsCreate k.fs path).1 }
  let k := k.setTcb t TCB.advance
  registerIo (blockThread k t .ioBlock) pid path

def executeCommand (k : Kernel) (t : ℕ) : Kernel :=
  match threadCurrentCommand (k.tcb t) with
  | .compute => k.setTcb t threadExecute
  | .produceData => executeProduce k t
  | .consumeData => executeConsume k t
  | .acquireResource => executeAcquire k t
  | .ioWrite => executeIoWrite k t

/-! ## The parts of a tick -/

/-- The thread that has the processor, if it runs. -/
def Kernel.runningThread (k : Kernel) : Option ℕ :=
  k.sched.currentThread.filter fun t => (k.tcb t).state = .running

/-- 1. One process whose time has come. -/
def arrive (k : Kernel) (p : ℕ) : Kernel :=
  if (k.procs p).state = .new ∧ (k.procs p).arrivalTime ≤ k.currentTick then
    let k := k.setProc p fun c => pcbSetState c .ready
    k.threads.foldl
      (fun k t =>
        if (k.tcb t).ownerPid = (k.procs p).pid then { k with sched := schedulerAdd k.sched t }
        else k)
      k
  else k

def checkArrivals (k : Kernel) : Kernel := (List.range k.procCount).foldl arrive k

/-- 4. Ensure that a thread is running. -/
def ensureRunning (k : Kernel) : Kernel :=
  if k.runningThread.isSome then k else { k with sched := schedulerNext k.sched }

/-- The process that ends because `t`, which has just executed, was its last live thread. -/
def endingProcess (k : Kernel) (t : ℕ) : Option ℕ :=
  if (k.tcb t).state = .running ∧ (k.tcb t).burstRemaining ≤ 0 then
    (k.findProc (k.tcb t).ownerPid).filter fun p =>
      !processHasLiveThreads { k with sched := schedulerTerminate k.sched t } (k.procs p).pid
  else none

/-- The end of part 5 : a thread whose burst is used up terminates. -/
def retire (k : Kernel) (t : ℕ) : Kernel :=
  if (k.tcb t).state = .running ∧ (k.tcb t).burstRemaining ≤ 0 then
    let ended := endingProcess k t
    let k := { k with sched := schedulerTerminate k.sched t }
    match ended with
    | none => k
    | some p => cleanupProcess k p false
  else k

/-- The victim of a deadlock, looked for every ten ticks. -/
def deadlockVictim (k : Kernel) : Option ℕ :=
  if 0 < k.currentTick ∧ k.currentTick % 10 = 0 then
    match deadlockDetect k.graph with
    | none => none
    | some victim => k.findProc victim
  else none

/-- 5.5. Deadlock detection. -/
def detectDeadlock (k : Kernel) : Kernel :=
  match deadlockVictim k with
  | none => k
  | some p => cleanupProcess (applyWoken k (deadlockResolve k.graph (k.procs p).pid)) p false

/-- The process that crashes. -/
def crashedProcess (k : Kernel) : Option ℕ :=
  if k.config.crashEnabled ∧ k.currentTick = 30 then
    match k.runningThread with
    | none => none
    | some t => k.findProc (k.tcb t).ownerPid
  else none

/-- 5.6. Crash injection. -/
def injectCrash (k : Kernel) : Kernel :=
  match crashedProcess k with
  | none => k
  | some p => cleanupProcess k p true

/-- 6. -/
def triggerPageFault (k : Kernel) : Kernel :=
  if k.config.deadlockEnabled then k
  else if k.currentTick ≤ 0 ∨ k.currentTick % pageFaultInterval ≠ 0 then k
  else
    match k.runningThread with
    | none => k
    | some t =>
      match k.findProc (k.tcb t).ownerPid with
      | none => k
      | some p =>
        let nextPage := memGetPageCount (k.procs p)
        if maxPages ≤ nextPage then k
        else
          let r := memAccess k.mem (k.procs p) (nextPage * pageSize)
          let k := { k with mem := r.mem }
          if r.ret < 0 then
            registerPageFault (blockThread k t .pageFault) (k.procs p).pid (r.faultPage.getD 0)
          else k

/-- 8. Wait time tracking. -/
def trackWaitTime (k : Kernel) : Kernel :=
  { k with
    procs := fun p =>
      if p < k.procCount ∧ (k.procs p).state = .ready then
        { k.procs p with waitTime := (k.procs p).waitTime + 1 }
      else k.procs p }

/-- 9. What the snapshot does to the state. -/
def snapshotSync (k : Kernel) : Kernel :=
  if k.currentTick % snapshotInterval = 0 then
    (List.range k.procCount).foldl
      (fun k p => if (k.procs p).state = .terminated then k else syncPcbStateFromThreads k p) k
  else k

/-- 10. -/
def wakeBufferWaiters (k : Kernel) : Kernel :=
  let k :=
    if 0 < k.sensorBuf.count then
      let r := condBroadcast k.sensorBuf.notEmpty maxProcs
      wakeThreads { k with sensorBuf := { k.sensorBuf with notEmpty := r.1 } } r.2
    else k
  let k :=
    if k.sensorBuf.count < ringBufferSize then
      let r := condBroadcast k.sensorBuf.notFull maxProcs
      wakeThreads { k with sensorBuf := { k.sensorBuf with notFull := r.1 } } r.2
    else k
  if !k.sensorBuf.mutex.locked ∧ 0 < k.sensorBuf.mutex.waitQueue.length then
    let m := k.sensorBuf.mutex
    wakeThreads
      { k with sensorBuf := { k.sensorBuf with mutex := { m with waitQueue := m.waitQueue.tail } } }
      [m.waitQueue.headD 0]
  else k

/-- 11. Termination check. -/
def allTerminated (k : Kernel) : Bool :=
  (List.range k.procCount).all fun p => (k.procs p).state = .terminated

/-! ## The tick loop -/

/-- Where the loop is. -/
inductive Phase
  | top | arrivals | ioEvents | pageFaults | compact | dispatch | execute
  /-- Thread `t` has just executed a command. -/
  | retire (t : ℕ)
  | detect | crash | pageFault | schedTick | waitTime | snapshot | wakeWaiters | finish | halted
  deriving DecidableEq, Repr

/-- One part of the loop of `kernel_run`. -/
def machineStep : Kernel × Phase → Kernel × Phase
  | (k, .top) =>
    if 0 < k.config.maxTicks ∧ k.config.maxTicks ≤ k.currentTick then (k, .halted)
    else ({ k with mem := memSetTick k.mem k.currentTick }, .arrivals)
  | (k, .arrivals) => (checkArrivals k, .ioEvents)
  | (k, .ioEvents) => (completeIoEvents k, .pageFaults)
  | (k, .pageFaults) => (completePageFaults k, .compact)
  | (k, .compact) => (compactPendingEvents k, .dispatch)
  | (k, .dispatch) => (ensureRunning k, .execute)
  | (k, .execute) =>
    match k.runningThread with
    | none => (k, .detect)
    | some t => (executeCommand k t, .retire t)
  | (k, .retire t) => (retire k t, .detect)
  | (k, .detect) => (detectDeadlock k, .crash)
  | (k, .crash) => (injectCrash k, .pageFault)
  | (k, .pageFault) => (triggerPageFault k, .schedTick)
  | (k, .schedTick) => ({ k with sched := schedulerTick k.sched k.currentTick }, .waitTime)
  | (k, .waitTime) => (trackWaitTime k, .snapshot)
  | (k, .snapshot) => (snapshotSync k, .wakeWaiters)
  | (k, .wakeWaiters) => (wakeBufferWaiters k, .finish)
  | (k, .finish) =>
    if allTerminated k then (k, .halted) else ({ k with currentTick := k.currentTick + 1 }, .top)
  | (k, .halted) => (k, .halted)

/-- The state after `n` parts. -/
def machineRun (k : Kernel) (n : ℕ) : Kernel × Phase := machineStep^[n] (k, .top)

/-! ## Initialisation -/

structure ThreadSpec where
  tid : ℤ
  commands : List CommandType
  burst : ℤ

structure ProcessSpec where
  pid : ℤ
  name : CString
  priority : Priority
  commands : List CommandType
  burst : ℤ
  arrivalTime : ℤ
  threads : List ThreadSpec

/-- A new process of the workload. -/
def ProcessSpec.create (p : ProcessSpec) : PCB :=
  droneSetCommands (pcbCreate p.pid p.name p.priority) p.commands p.commands.length p.burst

/-- One thread of process `p`, at the next index of the thread table. -/
def bootThread (p : ℕ) (k : Kernel) (spec : ThreadSpec) : Kernel :=
  let t := k.threadCount
  let pcb := k.procs p
  let k := k.setTcb t fun fresh =>
    { threadCreate fresh spec.tid pcb.pid spec.commands spec.commands.length spec.burst with
      priority := pcb.priority
      mlfqLevel := pcb.mlfqLevel }
  { k with threadCount := t + 1 }

/-- `mem_allocate_page` with a null eviction pointer. -/
def bootPage (p : ℕ) (k : Kernel) (page : ℤ) : Kernel :=
  let r := memAllocatePage k.mem (k.procs p) page ⟨false, 0, 0, 0⟩
  { k.setProc p fun _ => r.pcb with mem := r.mem }

/-- The body of the loop of `kernel_init`. -/
def bootProcess (k : Kernel) (spec : ProcessSpec × ℕ) : Kernel :=
  let p := spec.2
  let k := k.setProc p fun c => { c with arrivalTime := spec.1.arrivalTime }
  let k := { k with graph := deadlockSetPriority k.graph (k.procs p).pid (k.procs p).priority }
  let k := bootPage p (bootPage p k 0) 1
  let first := k.threadCount
  let k := spec.1.threads.foldl (bootThread p) k
  if (k.procs p).arrivalTime = 0 then
    let k := k.setProc p fun c => pcbSetState c .ready
    (List.range' first spec.1.threads.length).foldl
      (fun k t => { k with sched := schedulerAdd k.sched t }) k
  else k

/-- `kernel_init`, over the memory `k₀`. -/
def kernelInit (k₀ : Kernel) (cfg : KernelConfig) (workload : List ProcessSpec) : Kernel :=
  let k : Kernel := { k₀ with
    config := cfg
    currentTick := 0
    procs := fun i => (workload[i]?.map ProcessSpec.create).getD (k₀.procs i)
    procCount := workload.length
    sched := schedulerInit k₀.sched cfg.schedMode
    threadCount := 0
    pending := fun _ => ⟨0, 0, .none, [], 0, false⟩
    pendingCount := 0
    sensorBuf := bufferInit
    ioSeq := 0
    mem := memInit k₀.mem
    fs := fsInit
    graph := deadlockInit k₀.graph
    deadlockPhase := fun _ => 0 }
  workload.zipIdx.foldl bootProcess k

/-- What the tables can hold : distinct pids below `MAX_PROCS`, distinct tids, and at most
`MAX_THREADS` threads. A thread without commands has nothing to run, since `thread_execute` takes a
remainder by their number. -/
structure ValidWorkload (workload : List ProcessSpec) : Prop where
  pids : (workload.map ProcessSpec.pid).Nodup
  pid_range : ∀ p ∈ workload, validPid p.pid
  tids : ((workload.flatMap ProcessSpec.threads).map ThreadSpec.tid).Nodup
  threads_le : (workload.flatMap ProcessSpec.threads).length ≤ maxThreads
  commands : ∀ p ∈ workload, ∀ s ∈ p.threads, s.commands = [] → s.burst ≤ 0

instance (workload : List ProcessSpec) : Decidable (ValidWorkload workload) :=
  decidable_of_iff ((workload.map ProcessSpec.pid).Nodup ∧ (∀ p ∈ workload, validPid p.pid) ∧
      ((workload.flatMap ProcessSpec.threads).map ThreadSpec.tid).Nodup ∧
      (workload.flatMap ProcessSpec.threads).length ≤ maxThreads ∧
      ∀ p ∈ workload, ∀ s ∈ p.threads, s.commands = [] → s.burst ≤ 0)
    ⟨fun ⟨hpids, hrange, htids, hthreads, hcommands⟩ => ⟨hpids, hrange, htids, hthreads, hcommands⟩,
      fun h => ⟨h.pids, h.pid_range, h.tids, h.threads_le, h.commands⟩⟩

/-- A drone as `kernel_init` sets it up : its commands run in a main thread, beside a worker. -/
def drone (pid : ℤ) (name : CString) (priority : Priority) (commands : List CommandType)
    (burst arrivalTime : ℤ) : ProcessSpec where
  pid := pid
  name := name
  priority := priority
  commands := commands
  burst := burst
  arrivalTime := arrivalTime
  threads := [⟨2 * pid, commands, burst⟩, ⟨2 * pid + 1, [.compute, .compute], 10⟩]

/-- The four drones. -/
def droneWorkload : List ProcessSpec :=
  [drone 0 "Flight".toList .high [.compute, .produceData, .acquireResource] 20 0,
    drone 1 "Battery".toList .critical [.compute, .acquireResource, .ioWrite] 25 0,
    drone 2 "Mapping".toList .normal [.compute, .consumeData, .ioWrite] 15 2,
    drone 3 "LogCollector".toList .low [.consumeData, .ioWrite] 10 4]

/-- The memory of a program that has just started. -/
def Kernel.zero : Kernel where
  config := ⟨.rr, 0, false, false⟩
  currentTick := 0
  procs _ := pcbCreate 0 [] .critical
  procCount := 0
  sched :=
    { tcb := fun _ => ⟨0, 0, .ready, 0, .none, [], 0, 0, 0, .critical, 0⟩
      rr := ⟨fun _ => 0, 0, 0⟩
      mlfq := fun _ => ⟨fun _ => 0, 0, 0⟩
      currentThread := none
      schedMode := .rr
      quantumRemaining := 0
      contextSwitches := 0
      currentQueue := 0
      lastBoostTick := 0
      priorityBoostCount := 0
      threadTable := [] }
  threadCount := 0
  pending _ := ⟨0, 0, .none, [], 0, false⟩
  pendingCount := 0
  sensorBuf := bufferInit
  ioSeq := 0
  mem := ⟨fun _ => 0, fun _ => 0, fun _ => 0, 0, 0⟩
  fs := fsInit
  graph := ⟨fun _ _ => 0, fun _ _ => 0, fun _ => 0, fun _ => false, fun _ => [], fun _ => .critical⟩
  deadlockPhase _ := 0

end FleetOS
