import FleetOS.Snapshots
import FleetOS.TwoRuns

/-!
# Log lines

`logger.c`, and the lines that the scheduler, the memory, the resource graph and the buffer log.
Beside each function that logs stands one with the suffix `Log` : the lines it prints in the
state in which it is called. Each module has a tick of its own, which the kernel sets once a
tick; the memory keeps it in its state, elsewhere it is the argument `tick`.

`deadlock_wake_waiters` logs an allocation and then runs the callback, which logs as well : its
lines are in `KernelLog`.
-/

namespace FleetOS

open Printing TwoRuns

inductive LogLevel
  | debug | info | warn | error | critical
  deriving DecidableEq, Repr

def levelToString : LogLevel → CString
  | .debug => "DEBUG".toList
  | .info => "INFO".toList
  | .warn => "WARN".toList
  | .error => "ERROR".toList
  | .critical => "CRITICAL".toList

/-- The line that `logger_log` prints. No data is the null pointer, or the empty text. -/
def loggerLog (tick : ℤ) (module : String) (level : LogLevel) (msg : String) (data : CString) :
    CString :=
  "\x7b\"tick\":".toList ++ decimal tick ++ ",\"module\":\"".toList ++ module.toList ++
    "\",\"level\":\"".toList ++ levelToString level ++ "\",\"msg\":\"".toList ++ msg.toList ++
    "\"".toList ++ (if data = [] then [] else ",\"data\":".toList ++ data) ++ "\x7d\n".toList

def loggerSnapshot (tick : ℤ) (procsJson : CString) : CString :=
  loggerLog tick "SNAPSHOT" .info "State snapshot" procsJson

/-! ## Data -/

def intField (name : String) (v : ℤ) : CString :=
  "\"".toList ++ name.toList ++ "\":".toList ++ decimal v

def textField (name : String) (v : CString) : CString :=
  "\"".toList ++ name.toList ++ "\":\"".toList ++ v ++ "\"".toList

def boolField (name : String) (v : Bool) : CString :=
  "\"".toList ++ name.toList ++ "\":".toList ++ if v then "true".toList else "false".toList

/-- The object with these fields, printed into a buffer. -/
def dataObject (bufsize : ℕ) (fields : List CString) : CString :=
  (printAll bufsize ["\x7b".toList ++ (separated fields).flatten ++ "\x7d".toList]).text

/-! ## The scheduler -/

/-- The line for the switch to `next`, unless it has the processor already. -/
def contextSwitchLog (s : Scheduler) (next : ℕ) (queue : List CString) (tick : ℤ) : List CString :=
  if s.currentThread = some next then []
  else
    [loggerLog tick "SCHED" .info "Context switch" (dataObject 64
      ([intField "from" (currentTid s), intField "to" (s.tcb next).tid,
        intField "quantum" s.quantumRemaining] ++ queue))]

def schedulerNextLog (s : Scheduler) (tick : ℤ) : List CString :=
  match s.schedMode with
  | .rr =>
    if s.rr.count = 0 then []
    else
      let s := yieldCurrent s
      contextSwitchLog s (s.rr.slots s.rr.head) [] tick
  | .mlfq =>
    if !mlfqHasReady s then []
    else
      let s := yieldCurrent s
      match s.firstReady with
      | none => []
      | some chosen =>
        match queuePop (s.mlfq chosen) with
        | none => []
        | some (next, _) => contextSwitchLog s next [intField "queue" chosen] tick

def schedulerBlockLog (s : Scheduler) (t : ℕ) (tick : ℤ) : List CString :=
  if (s.tcb t).state = .done then []
  else if s.currentThread = some t then
    let s := if s.schedMode = .mlfq then
        s.setTcb t fun c => { c with mlfqLevel := s.currentQueue }
      else s
    schedulerNextLog { s with currentThread := none } tick
  else []

def schedulerPriorityBoostLog (s : Scheduler) (tick : ℤ) : List CString :=
  match s.schedMode with
  | .rr => []
  | .mlfq =>
    [loggerLog tick "SCHED" .info "Priority boost" (dataObject 64
      [intField "tick" tick, intField "boost_count" (s.priorityBoostCount + 1)])]

def chargeQuantumLog (s : Scheduler) (tick : ℤ) : List CString :=
  match s.currentThread with
  | none => schedulerNextLog s tick
  | some c =>
    let s := { s with quantumRemaining := s.quantumRemaining - 1 }
    if s.quantumRemaining ≤ 0 then schedulerNextLog (demoteCurrent s c) tick else []

theorem chargeQuantumLog_of_none {s : Scheduler} (h : s.currentThread = none) (tick : ℤ) :
    chargeQuantumLog s tick = schedulerNextLog s tick := by
  unfold chargeQuantumLog
  rw [h]

theorem chargeQuantumLog_of_some {s : Scheduler} {c : ℕ} (h : s.currentThread = some c) (tick : ℤ) :
    chargeQuantumLog s tick =
      if s.quantumRemaining - 1 ≤ 0 then
        schedulerNextLog (demoteCurrent { s with quantumRemaining := s.quantumRemaining - 1 } c) tick
      else [] := by
  unfold chargeQuantumLog
  rw [h]

def schedulerTickLog (s : Scheduler) (tick : ℤ) : List CString :=
  let s := if s.schedMode = .mlfq ∧ s.lastBoostTick = 0 then { s with lastBoostTick := tick } else s
  if s.schedMode = .mlfq ∧ 30 ≤ tick - s.lastBoostTick then
    chargeQuantumLog s tick ++ schedulerPriorityBoostLog (chargeQuantum s) tick
  else chargeQuantumLog s tick

/-! ## Memory -/

def memAllocatePageLog (m : PhysicalMemory) (pcb : PCB) (page : ℤ) : List CString :=
  let allocated (frame free : ℤ) := loggerLog m.currentTick "MEM" .info "Page allocated"
    (dataObject 128 [intField "pid" pcb.pid, intField "page" page, intField "frame" frame,
      intField "free_frames" free])
  if page < 0 ∨ maxPages ≤ page then []
  else if pcb.pageTable page ≠ -1 then []
  else
    let frame := findFreeFrame m
    if frame < 0 then
      let frame := selectLruVictim m
      [loggerLog m.currentTick "MEM" .warn "Page evicted via LRU" (dataObject 128
          [intField "pid" pcb.pid, intField "frame" frame, intField "victim_pid" (m.frames frame),
            intField "victim_page" (m.framePages frame)]),
        allocated frame m.freeFrameCount]
    else [allocated frame (m.freeFrameCount - 1)]

def memFreeProcessLog (m : PhysicalMemory) (pcb : PCB) : List CString :=
  [loggerLog m.currentTick "MEM" .info "Process memory freed" (dataObject 64 [intField "pid" pcb.pid])]

/-! ## The resource graph -/

def deadlockResourceName (rid : ℤ) : CString :=
  if rid = resourceLandingPad then "LandingPad".toList
  else if rid = resourceChargeStation then "ChargeStation".toList
  else if rid = resourceCommChannel then "CommChannel".toList
  else "Unknown".toList

/-- The fields of every line about a process and a resource. -/
def resourceFields (pid rid : ℤ) : List CString :=
  [intField "pid" pid, intField "rid" rid, textField "resource" (deadlockResourceName rid)]

def resourceLine (msg : String) (pid rid tick : ℤ) : CString :=
  loggerLog tick "DEADLOCK" .info msg (dataObject 128 (resourceFields pid rid))

def deadlockAllocLog (g : ResourceGraph) (pid rid tick : ℤ) : List CString :=
  if ¬validPid pid then []
  else if ¬validRid rid then []
  else if g.available rid ≤ 0 then []
  else [resourceLine "Resource allocated" pid rid tick]

def deadlockRequestLog (g : ResourceGraph) (pid rid tick : ℤ) : List CString :=
  if ¬validPid pid then []
  else if ¬validRid rid then []
  else if 0 < g.allocation pid rid then []
  else
    let requested := loggerLog tick "DEADLOCK" .info "Resource requested" (dataObject 128
      (resourceFields pid rid ++ [intField "available" (g.available rid)]))
    if 0 < g.available rid then requested :: deadlockAllocLog g pid rid tick else [requested]

def deadlockReleaseLog (g : ResourceGraph) (pid rid tick : ℤ) : List CString :=
  if ¬validPid pid then []
  else if ¬validRid rid then []
  else if g.allocation pid rid ≤ 0 then []
  else [resourceLine "Resource released" pid rid tick]

def releaseAllLog (pid rid tick : ℤ) : ℕ → ResourceGraph → List CString
  | 0, _ => []
  | fuel + 1, g =>
    if 0 < g.allocation pid rid then
      deadlockReleaseLog g pid rid tick ++
        releaseAllLog pid rid tick fuel (deadlockRelease g pid rid)
    else []

def deadlockCleanupProcessLog (g : ResourceGraph) (pid tick : ℤ) : List CString :=
  if ¬validPid pid then []
  else
    foldOut (cleanupResource pid)
      (fun g rid => releaseAllLog pid rid tick (g.allocation pid rid).toNat g) g resourceIndices

/-! ## The buffer -/

def mutexLockLog (m : Mutex) (pid tick : ℤ) : List CString :=
  if !m.locked then
    [loggerLog tick "SYNC" .info "Mutex lock acquired" (dataObject 64
      [intField "pid" pid, intField "owner" pid])]
  else if pid ∈ m.waitQueue then []
  else
    [loggerLog tick "SYNC" .info "Mutex lock wait" (dataObject 64
      [intField "pid" pid, intField "owner" m.ownerPid, textField "reason" "locked".toList])]

def mutexUnlockLog (m : Mutex) (tick : ℤ) : List CString :=
  [loggerLog tick "SYNC" .info "Mutex unlock" (dataObject 64
    [intField "pid" m.ownerPid, intField "wake_pid" (mutexUnlock m).2])]

/-- The lines of `buffer_produce` and `buffer_consume`, which lock the mutex and, where they got
it, unlock it again : on every path one of them. -/
def bufferCallLog (b : BoundedBuffer) (pid tick : ℤ) : List CString :=
  let r := mutexLock b.mutex pid
  if r.2 < 0 then mutexLockLog b.mutex pid tick
  else mutexLockLog b.mutex pid tick ++ mutexUnlockLog r.1 tick

def bufferReleaseMutexLog (b : BoundedBuffer) (pid tick : ℤ) : List CString :=
  if b.mutex.locked ∧ b.mutex.ownerPid = pid then mutexUnlockLog b.mutex tick else []

end FleetOS
