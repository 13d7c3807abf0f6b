import FleetOS.Agreement
import FleetOS.KernelLog

/-!
# Kernels that agree

Two kernels agree if they differ in what the initialisation leaves of an earlier run : the
process and thread tables behind their counts, and what two schedulers and two graphs that agree
may differ in. Every function of the kernel keeps this, for threads and processes of the tables
(`Kernel.Agree.cleanupProcess`, `Kernel.Agree.executeCommand` and so on).
-/

namespace FleetOS

open TwoRuns

/-- A test of the elements of a list, by two predicates that are the same on them. -/
theorem any_eq_of_mem {α : Type*} {l : List α} {p q : α → Bool} (h : ∀ a ∈ l, p a = q a) :
    l.any p = l.any q := by
  induction l with
  | nil => rfl
  | cons a l ih =>
    rw [List.any_cons, List.any_cons, h a List.mem_cons_self,
      ih fun b hb => h b (List.mem_cons_of_mem a hb)]

namespace Kernel

/-- Two kernels with `n` threads and `m` processes that are the same in them and in everything
that is not a table. -/
structure Agree (n m : ℕ) (pids : Set ℤ) (k k' : Kernel) : Prop where
  threadCount : k.threadCount = n
  threadCount' : k'.threadCount = n
  procCount : k.procCount = m
  procCount' : k'.procCount = m
  config : k'.config = k.config
  currentTick : k'.currentTick = k.currentTick
  procs : ∀ p < m, k'.procs p = k.procs p
  sched : k.sched.Agree n k'.sched
  pending : k'.pending = k.pending
  pendingCount : k'.pendingCount = k.pendingCount
  sensorBuf : k'.sensorBuf = k.sensorBuf
  ioSeq : k'.ioSeq = k.ioSeq
  mem : k'.mem = k.mem
  fs : k'.fs = k.fs
  graph : k.graph.Agree pids k'.graph
  deadlockPhase : k'.deadlockPhase = k.deadlockPhase

namespace Agree

variable {n m : ℕ} {pids : Set ℤ} {k k' : Kernel} {t p : ℕ}

/-! ## Reading -/

theorem tcb (h : Agree n m pids k k') (ht : t < n) : k'.tcb t = k.tcb t := h.sched.tcb t ht

theorem threads (h : Agree n m pids k k') : k'.threads = k.threads := by
  rw [Kernel.threads, Kernel.threads, h.threadCount, h.threadCount']

theorem lt_of_mem (h : Agree n m pids k k') (ht : t ∈ k.threads) : t < n :=
  h.threadCount ▸ mem_threads.mp ht

theorem findThread (h : Agree n m pids k k') (tid : ℤ) : findThread k' tid = findThread k tid := by
  unfold FleetOS.findThread
  rw [h.threads]
  refine List.find?_congr fun t ht => ?_
  rw [h.tcb (h.lt_of_mem ht)]

theorem findThread_lt (h : Agree n m pids k k') {tid : ℤ}
    (hf : FleetOS.findThread k tid = some t) : t < n :=
  h.threadCount ▸ (findThread_eq_some hf).1

theorem findProc (h : Agree n m pids k k') (pid : ℤ) : k'.findProc pid = k.findProc pid := by
  unfold Kernel.findProc FleetOS.findProc
  rw [h.procCount, h.procCount']
  refine List.find?_congr fun p hp => ?_
  rw [h.procs p (List.mem_range.mp hp)]

theorem findProc_lt (h : Agree n m pids k k') {pid : ℤ} (hf : k.findProc pid = some p) : p < m :=
  h.procCount ▸ (findProc_eq_some hf).1

theorem runningThread (h : Agree n m pids k k') (hc : k.sched.CurrentLt n) :
    k'.runningThread = k.runningThread := by
  unfold Kernel.runningThread
  rw [h.sched.currentThread]
  cases hcur : k.sched.currentThread with
  | none => rfl
  | some c => simp only [Option.filter_some, h.tcb (hc c hcur)]

theorem processHasLiveThreads (h : Agree n m pids k k') (pid : ℤ) :
    processHasLiveThreads k' pid = processHasLiveThreads k pid := by
  unfold FleetOS.processHasLiveThreads
  rw [h.threads]
  refine any_eq_of_mem fun t ht => ?_
  rw [h.tcb (h.lt_of_mem ht)]

/-! ## Writing -/

theorem setSched (h : Agree n m pids k k') {s s' : Scheduler} (hs : s.Agree n s') :
    Agree n m pids { k with sched := s } { k' with sched := s' } :=
  { h with sched := hs }

theorem setTcb (h : Agree n m pids k k') (t : ℕ) (f : TCB → TCB) :
    Agree n m pids (k.setTcb t f) (k'.setTcb t f) :=
  h.setSched (h.sched.setTcb t f)

theorem setProc (h : Agree n m pids k k') (p : ℕ) (f : PCB → PCB) :
    Agree n m pids (k.setProc p f) (k'.setProc p f) := by
  refine { h with procs := fun q hq => ?_ }
  dsimp only [Kernel.setProc]
  rw [Function.update_apply, Function.update_apply]
  split_ifs with hqp
  · rw [h.procs p (hqp ▸ hq)]
  · exact h.procs q hq

theorem setPending (h : Agree n m pids k k') (i : ℕ) (f : PendingEvent → PendingEvent) :
    Agree n m pids (k.setPending i f) (k'.setPending i f) := by
  refine { h with pending := ?_ }
  rw [Kernel.setPending, Kernel.setPending, h.pending]

theorem setBuffer (h : Agree n m pids k k') {b b' : BoundedBuffer} (hb : b' = b) :
    Agree n m pids { k with sensorBuf := b } { k' with sensorBuf := b' } :=
  { h with sensorBuf := hb }

theorem setGraph (h : Agree n m pids k k') {g g' : ResourceGraph} (hg : g.Agree pids g') :
    Agree n m pids { k with graph := g } { k' with graph := g' } :=
  { h with graph := hg }

theorem nextPhase (h : Agree n m pids k k') (pid : ℤ) :
    Agree n m pids
      { k with deadlockPhase := Function.update k.deadlockPhase pid (k.deadlockPhase pid + 1) }
      { k' with
        deadlockPhase := Function.update k'.deadlockPhase pid (k'.deadlockPhase pid + 1) } :=
  { h with
    deadlockPhase := congrArg (fun d => Function.update d pid (d pid + 1)) h.deadlockPhase }

/-! ## Blocking and waking -/

theorem syncPcb (h : Agree n m pids k k') (hp : p < m) :
    Agree n m pids (syncPcbStateFromThreads k p) (syncPcbStateFromThreads k' p) := by
  have hlive : (k'.threads.filter fun t =>
      (k'.tcb t).ownerPid = (k.procs p).pid ∧ (k'.tcb t).state ≠ .done) =
        k.threads.filter fun t =>
          (k.tcb t).ownerPid = (k.procs p).pid ∧ (k.tcb t).state ≠ .done := by
    rw [h.threads]
    refine List.filter_congr fun t ht => ?_
    rw [h.tcb (h.lt_of_mem ht)]
  unfold syncPcbStateFromThreads
  rw [h.procs p hp]
  refine ite_rel Iff.rfl (fun _ => h) fun _ => ?_
  dsimp only
  rw [hlive]
  set live := k.threads.filter fun t =>
    (k.tcb t).ownerPid = (k.procs p).pid ∧ (k.tcb t).state ≠ .done
  have htcb : ∀ t ∈ live, k'.tcb t = k.tcb t := fun t ht =>
    h.tcb (h.lt_of_mem (List.mem_filter.mp ht).1)
  have hany (s : ThreadState) :
      (live.any fun t => (k'.tcb t).state = s) = live.any fun t => (k.tcb t).state = s :=
    any_eq_of_mem fun t ht => by rw [htcb t ht]
  refine ite_rel Iff.rfl (fun _ => h) fun _ => ?_
  refine ite_rel (by rw [hany]) (fun _ => h.setProc p _) fun _ => ?_
  refine ite_rel (by rw [hany]) (fun _ => h.setProc p _) fun _ => ?_
  have hfirst : (live.find? fun t => (k'.tcb t).state = .blocked) =
      live.find? fun t => (k.tcb t).state = .blocked :=
    List.find?_congr fun t ht => by rw [htcb t ht]
  have hreason : ((live.find? fun t => (k.tcb t).state = .blocked).map fun t =>
      (k'.tcb t).waitReason) = (live.find? fun t => (k.tcb t).state = .blocked).map fun t =>
        (k.tcb t).waitReason :=
    Option.map_congr fun t ht => by rw [htcb t (List.mem_of_find?_eq_some ht)]
  rw [hfirst, hreason]
  exact h.setProc p _

theorem syncOwner (h : Agree n m pids k k') (ht : t < n) :
    Agree n m pids (syncOwner k t) (syncOwner k' t) := by
  unfold FleetOS.syncOwner
  rw [h.tcb ht, h.findProc]
  cases hf : k.findProc (k.tcb t).ownerPid with
  | none => exact h
  | some p => exact h.syncPcb (h.findProc_lt hf)

theorem blockThread (h : Agree n m pids k k') (ht : t < n) (reason : BlockReason) :
    Agree n m pids (blockThread k t reason) (blockThread k' t reason) := by
  refine ite_rel (by rw [h.tcb ht]) (fun _ => h) fun _ => ?_
  have hset := h.setTcb t fun c => threadBlock c reason
  exact (hset.setSched (hset.sched.schedulerBlock ht)).syncOwner ht

theorem unblockThread (h : Agree n m pids k k') (ht : t < n) :
    Agree n m pids (unblockThread k t) (unblockThread k' t) := by
  have hset := h.setTcb t threadUnblock
  exact (hset.setSched (hset.sched.schedulerAdd ht)).syncOwner ht

theorem unblockIf (h : Agree n m pids k k') (pid : ℤ) (reason : BlockReason) (ht : t < n) :
    Agree n m pids (unblockIf pid reason k t) (unblockIf pid reason k' t) :=
  ite_rel (by rw [h.tcb ht]) (fun _ => h.unblockThread ht) fun _ => h

theorem unblockOwned (h : Agree n m pids k k') (pid : ℤ) (reason : BlockReason) :
    Agree n m pids (unblockOwned k pid reason) (unblockOwned k' pid reason) := by
  unfold FleetOS.unblockOwned
  rw [h.threads]
  exact List.foldl_rel h fun t ht _ _ hc => hc.unblockIf pid reason (h.lt_of_mem ht)

theorem wakeId (h : Agree n m pids k k') (id : ℤ) :
    Agree n m pids (wakeId k id) (wakeId k' id) := by
  unfold FleetOS.wakeId
  rw [h.findThread]
  cases hf : FleetOS.findThread k id with
  | none => exact h
  | some t =>
    have ht := h.findThread_lt hf
    exact ite_rel (by rw [h.tcb ht]) (fun _ => h.unblockThread ht) fun _ => h

theorem wakeThreads (h : Agree n m pids k k') (ids : List ℤ) :
    Agree n m pids (wakeThreads k ids) (wakeThreads k' ids) :=
  List.foldl_rel h fun id _ _ _ hc => hc.wakeId id

/-! ## The end of a process -/

theorem wakeGranted (h : Agree n m pids k k') (pid : ℤ) (ht : t < n) :
    Agree n m pids (wakeGranted pid k t) (wakeGranted pid k' t) :=
  ite_rel (by rw [h.tcb ht]) (fun _ => ((h.unblockThread ht).nextPhase pid).setTcb t TCB.advance)
    fun _ => h

theorem deadlockWakeCallback (h : Agree n m pids k k') (pid : ℤ) :
    Agree n m pids (deadlockWakeCallback k pid) (deadlockWakeCallback k' pid) := by
  unfold FleetOS.deadlockWakeCallback
  rw [h.threads]
  exact List.foldl_rel h fun t ht _ _ hc => hc.wakeGranted pid (h.lt_of_mem ht)

theorem applyWoken (h : Agree n m pids k k') {r r' : ResourceGraph × List ℤ}
    (hr : ResourceGraph.Agree.AgreeWith pids r r') :
    Agree n m pids (applyWoken k r) (applyWoken k' r') := by
  unfold FleetOS.applyWoken
  rw [hr.2]
  exact List.foldl_rel (h.setGraph hr.1) fun pid _ _ _ hc => hc.deadlockWakeCallback pid

theorem cancelPending (h : Agree n m pids k k') (pid : ℤ) :
    Agree n m pids (cancelPending k pid) (cancelPending k' pid) := by
  refine { h with pending := ?_ }
  simp only [FleetOS.cancelPending, h.pending, h.pendingCount]

theorem endThread (h : Agree n m pids k k') (pid : ℤ) (ht : t < n) :
    Agree n m pids (endThread pid k t) (endThread pid k' t) :=
  ite_rel (by rw [h.tcb ht]) (fun _ => h.setTcb t _) fun _ => h

theorem endThreads (h : Agree n m pids k k') (pid : ℤ) :
    Agree n m pids (endThreads k pid) (endThreads k' pid) := by
  unfold FleetOS.endThreads
  rw [h.threads]
  exact List.foldl_rel h fun t ht _ _ hc => hc.endThread pid (h.lt_of_mem ht)

theorem releaseResources (h : Agree n m pids k k') (pid : ℤ) :
    Agree n m pids (releaseResources k pid) (releaseResources k' pid) := by
  have hw := h.applyWoken (h.graph.deadlockCleanupProcess pid).wakeAllWaiters
  exact { hw with fs := congrArg (fun fs => fsCleanupProcess fs pid) hw.fs }

theorem withdraw (h : Agree n m pids k k') (pid : ℤ) :
    Agree n m pids (withdraw k pid) (withdraw k' pid) :=
  (h.cancelPending pid).setBuffer
    (congrArg (fun b => bufferReleaseMutex (bufferRemovePid b pid) pid) h.sensorBuf)

theorem takeOut (h : Agree n m pids k k') (pid : ℤ) (release : Bool) :
    Agree n m pids (takeOut k pid release) (takeOut k' pid release) :=
  ite_rel Iff.rfl (fun _ => (h.withdraw pid).releaseResources pid) fun _ => h.withdraw pid

theorem terminate (h : Agree n m pids k k') (hp : p < m) :
    Agree n m pids (terminate k p) (terminate k' p) := by
  unfold FleetOS.terminate
  rw [h.mem, h.procs p hp, h.currentTick]
  have hset : Agree n m pids
      { k.setProc p fun _ => (memFreeProcess k.mem (k.procs p)).2 with
        mem := (memFreeProcess k.mem (k.procs p)).1 }
      { k'.setProc p fun _ => (memFreeProcess k.mem (k.procs p)).2 with
        mem := (memFreeProcess k.mem (k.procs p)).1 } :=
    { h.setProc p fun _ => (memFreeProcess k.mem (k.procs p)).2 with mem := rfl }
  exact hset.setProc p _

theorem cleanupProcess (h : Agree n m pids k k') (hp : p < m) (release : Bool) :
    Agree n m pids (cleanupProcess k p release) (cleanupProcess k' p release) := by
  rw [cleanupProcess_eq, cleanupProcess_eq, h.procs p hp]
  exact ((h.takeOut _ release).terminate hp).endThreads _

end Agree

end Kernel

end FleetOS
