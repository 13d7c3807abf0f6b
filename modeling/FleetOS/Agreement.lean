import FleetOS.Log
import FleetOS.ReadyQueues
import FleetOS.ResourceGrants

/-!
# Schedulers and graphs that agree

What the initialisation leaves of an earlier run : the TCBs from the next free index on, the
priorities of pids that no process has, and the units of resources that do not exist. Two
schedulers, or two graphs, agree if they differ in nothing else.

Every operation keeps the agreement, as long as a TCB that it reads is one they agree on; it
returns and logs the same (`Scheduler.Agree.schedulerTick`, `ResourceGraph.Agree.deadlockDetect`
and so on).
-/

namespace FleetOS

open TwoRuns

namespace Scheduler

/-- Equal but for the TCBs from `n` on. -/
structure Agree (n : ℕ) (s s' : Scheduler) : Prop where
  tcb : ∀ t < n, s'.tcb t = s.tcb t
  rr : s'.rr = s.rr
  mlfq : s'.mlfq = s.mlfq
  currentThread : s'.currentThread = s.currentThread
  schedMode : s'.schedMode = s.schedMode
  quantumRemaining : s'.quantumRemaining = s.quantumRemaining
  contextSwitches : s'.contextSwitches = s.contextSwitches
  currentQueue : s'.currentQueue = s.currentQueue
  lastBoostTick : s'.lastBoostTick = s.lastBoostTick
  priorityBoostCount : s'.priorityBoostCount = s.priorityBoostCount
  threadTable : s'.threadTable = s.threadTable

/-- The current thread is one of the first `n`. -/
def CurrentLt (s : Scheduler) (n : ℕ) : Prop := ∀ c, s.currentThread = some c → c < n

/-- The state after the first statement of `scheduler_tick`. -/
def tickStart (s : Scheduler) (tick : ℤ) : Scheduler :=
  if s.schedMode = .mlfq ∧ s.lastBoostTick = 0 then { s with lastBoostTick := tick } else s

namespace Agree

variable {n : ℕ} {s s' : Scheduler}

/-! ## Writing -/

theorem setTcb (h : Agree n s s') (t : ℕ) (f : TCB → TCB) :
    Agree n (s.setTcb t f) (s'.setTcb t f) := by
  refine { h with tcb := fun u hu => ?_ }
  rw [setTcb_tcb, setTcb_tcb]
  split_ifs with hut
  · rw [h.tcb t (hut ▸ hu)]
  · exact h.tcb u hu

theorem setRr (h : Agree n s s') (q : ReadyQueue) : Agree n (s.setRr q) (s'.setRr q) :=
  { h with rr := rfl }

theorem setMlfq (h : Agree n s s') (l : ℤ) (q : ReadyQueue) :
    Agree n (s.setMlfq l q) (s'.setMlfq l q) := by
  refine { h with mlfq := ?_ }
  rw [Scheduler.setMlfq, Scheduler.setMlfq, h.mlfq]

theorem setCurrent (h : Agree n s s') (c : Option ℕ) :
    Agree n { s with currentThread := c } { s' with currentThread := c } :=
  { h with currentThread := rfl }

theorem register (h : Agree n s s') (t : ℕ) : Agree n (s.register t) (s'.register t) :=
  ite_rel (by rw [h.threadTable]) (fun _ => h) fun _ =>
    ite_rel (by rw [h.threadTable])
      (fun _ => { h with threadTable := congrArg (· ++ [t]) h.threadTable }) fun _ => h

/-! ## Adding and removing -/

theorem schedulerAdd (h : Agree n s s') {t : ℕ} (ht : t < n) :
    Agree n (schedulerAdd s t) (schedulerAdd s' t) := by
  unfold FleetOS.schedulerAdd findInRr
  rw [h.schedMode, h.rr, h.mlfq, h.tcb t ht]
  cases s.schedMode with
  | rr =>
    exact ite_rel Iff.rfl (fun _ => h) fun _ => ite_rel Iff.rfl (fun _ => h) fun _ =>
      ((h.setRr _).setTcb t _).register t
  | mlfq => exact ite_rel Iff.rfl (fun _ => h) fun _ => ((h.setMlfq _ _).setTcb t _).register t

theorem removeQueued (h : Agree n s s') (t : ℕ) :
    Agree n (removeQueued s t) (removeQueued s' t) := by
  unfold FleetOS.removeQueued findInRr rrRemoveAt
  rw [h.schedMode, h.rr, h.mlfq]
  cases s.schedMode with
  | rr =>
    dsimp only
    cases s.rr.index t with
    | none => exact h
    | some idx => exact h.setRr _
  | mlfq =>
    dsimp only
    split
    · exact h
    · split
      · exact h
      · exact h.setMlfq _ _

theorem schedulerTerminate (h : Agree n s s') (t : ℕ) :
    Agree n (schedulerTerminate s t) (schedulerTerminate s' t) := by
  unfold FleetOS.schedulerTerminate
  refine Agree.setTcb (removeQueued ?_ t) t _
  exact ite_rel (by rw [h.currentThread]) (fun _ => h.setCurrent none) fun _ => h

/-! ## The next thread -/

theorem firstReady (h : Agree n s s') : s'.firstReady = s.firstReady := by
  rw [Scheduler.firstReady, Scheduler.firstReady, h.mlfq]

theorem mlfqHasReady (h : Agree n s s') : mlfqHasReady s' = mlfqHasReady s :=
  congrArg Option.isSome h.firstReady

theorem yieldCurrent (h : Agree n s s') (hc : s.CurrentLt n) :
    Agree n (yieldCurrent s) (yieldCurrent s') := by
  unfold FleetOS.yieldCurrent
  rw [h.currentThread]
  cases hcur : s.currentThread with
  | none => exact h
  | some c =>
    dsimp only
    rw [h.tcb c (hc c hcur), h.schedMode, h.rr, h.mlfq]
    refine ite_rel Iff.rfl (fun _ => ?_) fun _ => h
    cases s.schedMode with
    | rr => exact (h.setRr _).setTcb c _
    | mlfq => exact (h.setMlfq _ _).setTcb c _

theorem dispatch (h : Agree n s s') (next : ℕ) (quantum : ℤ) :
    Agree n (dispatch s next quantum) (dispatch s' next quantum) := by
  refine Agree.setTcb ?_ next _
  refine { h with currentThread := rfl, quantumRemaining := rfl, contextSwitches := ?_ }
  rw [h.currentThread, h.contextSwitches]

theorem schedulerNext (h : Agree n s s') (hc : s.CurrentLt n) :
    Agree n (schedulerNext s) (schedulerNext s') := by
  have hy := h.yieldCurrent hc
  unfold FleetOS.schedulerNext
  rw [h.schedMode, h.rr, h.mlfqHasReady]
  cases s.schedMode with
  | rr =>
    refine ite_rel Iff.rfl (fun _ => h) fun _ => ?_
    dsimp only
    rw [hy.rr]
    exact (hy.setRr _).dispatch _ _
  | mlfq =>
    refine ite_rel Iff.rfl (fun _ => h) fun _ => ?_
    dsimp only
    rw [hy.firstReady, hy.mlfq]
    split
    · exact hy
    · split
      · exact hy
      · next chosen _ _ next q _ =>
        have hset : Agree n { (FleetOS.yieldCurrent s).setMlfq chosen q with currentQueue := chosen }
            { (FleetOS.yieldCurrent s').setMlfq chosen q with currentQueue := chosen } :=
          { hy.setMlfq chosen q with currentQueue := rfl }
        exact hset.dispatch next _

theorem blockCurrent (h : Agree n s s') (t : ℕ) :
    Agree n (blockCurrent s t) (blockCurrent s' t) := by
  unfold Scheduler.blockCurrent
  rw [h.currentQueue]
  exact setCurrent (ite_rel (R := Agree n) (by rw [h.schedMode]) (fun _ => h.setTcb t _)
    fun _ => h) none

/-- A thread that gives up the processor has no TCB of its own to be read. -/
theorem schedulerBlock (h : Agree n s s') {t : ℕ} (ht : t < n) :
    Agree n (schedulerBlock s t) (schedulerBlock s' t) :=
  ite_rel (by rw [h.tcb t ht]) (fun _ => h) fun _ =>
    ite_rel (by rw [h.currentThread])
      (fun _ => (h.blockCurrent t).schedulerNext fun c hc => by
        rw [(blockCurrent_rest s t).2.1] at hc
        cases hc)
      fun _ => h.removeQueued t

/-! ## The tick -/

theorem boostQueue {i : ℤ} : ∀ (fuel : ℕ) {s s' : Scheduler}, Agree n s s' →
    Agree n (boostQueue i fuel s) (boostQueue i fuel s')
  | 0, _, _, h => h
  | fuel + 1, s, s', h => by
    unfold FleetOS.boostQueue
    rw [h.mlfq]
    split
    · exact h
    · next t q _ =>
      have hset := (h.setMlfq i q).setTcb t fun c => { c with mlfqLevel := 0 }
      dsimp only
      rw [hset.mlfq]
      exact boostQueue fuel (hset.setMlfq 0 _)

theorem boostAll (h : Agree n s s') (i : ℤ) :
    Agree n (FleetOS.boostQueue i (s.mlfq i).count s)
      (FleetOS.boostQueue i (s'.mlfq i).count s') := by
  rw [h.mlfq]
  exact boostQueue _ h

theorem schedulerPriorityBoost (h : Agree n s s') (tick : ℤ) :
    Agree n (schedulerPriorityBoost s tick) (schedulerPriorityBoost s' tick) := by
  unfold FleetOS.schedulerPriorityBoost
  rw [h.schedMode]
  cases s.schedMode with
  | rr => exact h
  | mlfq =>
    refine boostAll (boostAll ?_ 1) 2
    exact { h with
      schedMode := rfl
      lastBoostTick := rfl
      priorityBoostCount := congrArg (· + 1) h.priorityBoostCount }

theorem demoteCurrent (h : Agree n s s') {c : ℕ} (hc : c < n) :
    Agree n (demoteCurrent s c) (demoteCurrent s' c) := by
  unfold FleetOS.demoteCurrent
  rw [h.currentQueue, h.mlfq]
  exact ite_rel (by rw [h.schedMode, h.tcb c hc]) (fun _ => (h.setMlfq _ _).setTcb c _) fun _ => h

theorem currentThread_demoteCurrent (s : Scheduler) (c : ℕ) :
    (FleetOS.demoteCurrent s c).currentThread = s.currentThread := by
  unfold FleetOS.demoteCurrent
  split_ifs <;> rfl

theorem setQuantum (h : Agree n s s') :
    Agree n { s with quantumRemaining := s.quantumRemaining - 1 }
      { s' with quantumRemaining := s'.quantumRemaining - 1 } :=
  { h with quantumRemaining := congrArg (· - 1) h.quantumRemaining }

theorem chargeQuantum (h : Agree n s s') (hc : s.CurrentLt n) :
    Agree n (chargeQuantum s) (chargeQuantum s') := by
  cases hcur : s.currentThread with
  | none =>
    rw [chargeQuantum_of_none hcur, chargeQuantum_of_none (h.currentThread.trans hcur)]
    exact h.schedulerNext hc
  | some c =>
    rw [chargeQuantum_of_some hcur, chargeQuantum_of_some (h.currentThread.trans hcur)]
    refine ite_rel (by rw [h.quantumRemaining]) (fun _ => ?_) fun _ => h.setQuantum
    refine (h.setQuantum.demoteCurrent (hc c hcur)).schedulerNext fun d hd => hc d ?_
    rw [← hd, currentThread_demoteCurrent]

theorem tickStart (h : Agree n s s') (hc : s.CurrentLt n) (tick : ℤ) :
    Agree n (tickStart s tick) (tickStart s' tick) ∧ (tickStart s tick).CurrentLt n := by
  unfold Scheduler.tickStart
  refine ⟨ite_rel (by rw [h.schedMode, h.lastBoostTick]) (fun _ => { h with lastBoostTick := rfl })
    fun _ => h, ?_⟩
  split_ifs
  · exact hc
  · exact hc

theorem boostDue (h : Agree n s s') (hc : s.CurrentLt n) (tick : ℤ) :
    ((s'.tickStart tick).schedMode = .mlfq ∧ 30 ≤ tick - (s'.tickStart tick).lastBoostTick) ↔
      ((s.tickStart tick).schedMode = .mlfq ∧ 30 ≤ tick - (s.tickStart tick).lastBoostTick) := by
  obtain ⟨hstart, -⟩ := h.tickStart hc tick
  rw [hstart.schedMode, hstart.lastBoostTick]

theorem schedulerTick (h : Agree n s s') (hc : s.CurrentLt n) (tick : ℤ) :
    Agree n (schedulerTick s tick) (schedulerTick s' tick) := by
  obtain ⟨hstart, hlt⟩ := h.tickStart hc tick
  exact ite_rel (h.boostDue hc tick)
    (fun _ => (hstart.chargeQuantum hlt).schedulerPriorityBoost tick)
    fun _ => hstart.chargeQuantum hlt

/-! ## Log lines -/

theorem currentThread_yieldCurrent (s : Scheduler) :
    (FleetOS.yieldCurrent s).currentThread = s.currentThread := by
  unfold FleetOS.yieldCurrent
  split
  · rfl
  · split_ifs
    · split <;> rfl
    · rfl

theorem currentTid (h : Agree n s s') (hc : s.CurrentLt n) : currentTid s' = currentTid s := by
  unfold FleetOS.currentTid
  rw [h.currentThread]
  cases hcur : s.currentThread with
  | none => rfl
  | some c => exact congrArg TCB.tid (h.tcb c (hc c hcur))

theorem contextSwitchLog (h : Agree n s s') (hc : s.CurrentLt n) {next : ℕ} (hnext : next < n)
    (queue : List CString) (tick : ℤ) :
    contextSwitchLog s' next queue tick = contextSwitchLog s next queue tick := by
  unfold FleetOS.contextSwitchLog
  rw [h.currentThread, h.currentTid hc, h.tcb next hnext, h.quantumRemaining]

theorem schedulerNextLog (h : Agree n s s') (hc : s.CurrentLt n)
    (hnext : (FleetOS.schedulerNext s).CurrentLt n) (tick : ℤ) :
    schedulerNextLog s' tick = schedulerNextLog s tick := by
  have hy := h.yieldCurrent hc
  have hcy : (FleetOS.yieldCurrent s).CurrentLt n := fun c hc' =>
    hc c (currentThread_yieldCurrent s ▸ hc')
  unfold FleetOS.schedulerNextLog
  rw [h.schedMode, h.rr, h.mlfqHasReady]
  cases hm : s.schedMode with
  | rr =>
    refine ite_eq Iff.rfl (fun _ => rfl) fun hready => ?_
    have hlt : (FleetOS.yieldCurrent s).rr.slots (FleetOS.yieldCurrent s).rr.head < n := by
      refine hnext _ ?_
      simp only [FleetOS.schedulerNext, hm, if_neg hready]
      rfl
    dsimp only
    rw [hy.rr]
    exact hy.contextSwitchLog hcy hlt _ tick
  | mlfq =>
    refine ite_eq Iff.rfl (fun _ => rfl) fun hready => ?_
    dsimp only
    rw [hy.firstReady, hy.mlfq]
    cases hfirst : (FleetOS.yieldCurrent s).firstReady with
    | none => rfl
    | some chosen =>
      dsimp only
      cases hpop : queuePop ((FleetOS.yieldCurrent s).mlfq chosen) with
      | none => rfl
      | some r =>
        refine hy.contextSwitchLog hcy (hnext _ ?_) _ tick
        simp only [FleetOS.schedulerNext, hm, if_neg hready, hfirst, hpop]
        rfl

theorem schedulerBlockLog (h : Agree n s s') {t : ℕ} (ht : t < n)
    (hnext : (FleetOS.schedulerBlock s t).CurrentLt n) (tick : ℤ) :
    schedulerBlockLog s' t tick = schedulerBlockLog s t tick := by
  refine ite_eq (by rw [h.tcb t ht]) (fun _ => rfl) fun hstate =>
    ite_eq (by rw [h.currentThread]) (fun hcur => ?_) fun _ => rfl
  refine (h.blockCurrent t).schedulerNextLog (fun c hc => ?_) ?_ tick
  · rw [(blockCurrent_rest s t).2.1] at hc
    cases hc
  · have hblock : FleetOS.schedulerBlock s t = FleetOS.schedulerNext (s.blockCurrent t) := by
      rw [FleetOS.schedulerBlock, if_neg hstate, if_pos hcur]
      rfl
    rwa [← hblock]

theorem schedulerPriorityBoostLog (h : Agree n s s') (tick : ℤ) :
    schedulerPriorityBoostLog s' tick = schedulerPriorityBoostLog s tick := by
  unfold FleetOS.schedulerPriorityBoostLog
  rw [h.schedMode, h.priorityBoostCount]

theorem chargeQuantumLog (h : Agree n s s') (hd : s.Disciplined n) (tick : ℤ) :
    chargeQuantumLog s' tick = chargeQuantumLog s tick := by
  have hnext : (FleetOS.chargeQuantum s).CurrentLt n :=
    (frame_chargeQuantum hd).disciplined.current_lt
  cases hcur : s.currentThread with
  | none =>
    rw [chargeQuantumLog_of_none hcur, chargeQuantumLog_of_none (h.currentThread.trans hcur)]
    rw [chargeQuantum_of_none hcur] at hnext
    exact h.schedulerNextLog hd.current_lt hnext tick
  | some c =>
    rw [chargeQuantumLog_of_some hcur, chargeQuantumLog_of_some (h.currentThread.trans hcur)]
    refine ite_eq (by rw [h.quantumRemaining]) (fun hused => ?_) fun _ => rfl
    rw [chargeQuantum_of_some hcur, if_pos hused] at hnext
    refine (h.setQuantum.demoteCurrent (hd.current_lt c hcur)).schedulerNextLog (fun d hd' => ?_)
      hnext tick
    rw [currentThread_demoteCurrent] at hd'
    exact hd.current_lt d hd'

theorem schedulerTickLog (h : Agree n s s') (hd : s.Disciplined n) (tick : ℤ) :
    schedulerTickLog s' tick = schedulerTickLog s tick := by
  obtain ⟨hstart, hlt⟩ := h.tickStart hd.current_lt tick
  have hd₀ : (s.tickStart tick).Disciplined n := by
    unfold Scheduler.tickStart
    split_ifs
    · have hset : Frame s { s with lastBoostTick := tick } n ∅ :=
        hd.congr rfl rfl rfl rfl rfl rfl
      exact hset.disciplined
    · exact hd
  have hcharge := hstart.chargeQuantumLog hd₀ tick
  refine ite_eq (h.boostDue hd.current_lt tick) (fun _ => ?_) fun _ => hcharge
  exact congrArg₂ (· ++ ·) hcharge ((hstart.chargeQuantum hlt).schedulerPriorityBoostLog tick)

end Agree

end Scheduler

namespace ResourceGraph

/-- Equal but for the units of resources that do not exist and the priorities of pids outside
`pids`, none of which is active. -/
structure Agree (pids : Set ℤ) (g g' : ResourceGraph) : Prop where
  allocation : g'.allocation = g.allocation
  request : g'.request = g.request
  active : g'.active = g.active
  waitPid : g'.waitPid = g.waitPid
  available : ∀ rid, validRid rid → g'.available rid = g.available rid
  priority : ∀ pid ∈ pids, g'.priority pid = g.priority pid
  active_mem : ∀ pid, g.active pid = true → pid ∈ pids

namespace Agree

variable {pids : Set ℤ} {g g' : ResourceGraph} {pid rid : ℤ}

theorem isActive (h : Agree pids g g') : isActive g' = isActive g := by
  funext pid
  rw [FleetOS.isActive, FleetOS.isActive, h.active]

theorem mem_of_isActive (h : Agree pids g g') (ha : FleetOS.isActive g pid = true) : pid ∈ pids :=
  h.active_mem pid (by simp only [FleetOS.isActive, decide_eq_true_eq] at ha; exact ha.2.2)

/-- Activating a process. -/
theorem active_update (h : Agree pids g g') (hpid : pid ∈ pids) :
    ∀ q, Function.update g.active pid true q = true → q ∈ pids := by
  intro q hq
  rw [Function.update_apply] at hq
  split_ifs at hq with hqp
  · exact hqp ▸ hpid
  · exact h.active_mem q hq

theorem available_update (h : Agree pids g g') (rid : ℤ) {v v' : ℤ} (hv : v' = v) :
    ∀ r, validRid r →
      Function.update g'.available rid v' r = Function.update g.available rid v r := by
  intro r hr
  rw [Function.update_apply, Function.update_apply, h.available r hr, hv]

/-- Graphs that agree, and the same value returned with them. -/
def AgreeWith {β : Type*} (pids : Set ℤ) (r r' : ResourceGraph × β) : Prop :=
  Agree pids r.1 r'.1 ∧ r'.2 = r.2

/-! ## Operations -/

theorem deadlockSetPriority (h : Agree pids g g') (hpid : validPid pid) (p : Priority) :
    Agree (insert pid pids) (deadlockSetPriority g pid p) (deadlockSetPriority g' pid p) := by
  unfold FleetOS.deadlockSetPriority
  rw [if_pos hpid, if_pos hpid]
  refine { h with priority := fun q hq => ?_, active_mem := fun q hq => Or.inr (h.active_mem q hq) }
  dsimp only
  rw [Function.update_apply, Function.update_apply]
  split_ifs with hqp
  · rfl
  · exact h.priority q (hq.resolve_left hqp)

theorem deadlockAlloc (h : Agree pids g g') (hpid : pid ∈ pids) (rid : ℤ) :
    AgreeWith pids (deadlockAlloc g pid rid) (deadlockAlloc g' pid rid) := by
  refine ite_rel Iff.rfl (fun _ => ⟨h, rfl⟩) fun _ => ite_rel Iff.rfl (fun _ => ⟨h, rfl⟩) fun hr => ?_
  have hav := h.available rid (not_not.mp hr)
  refine ite_rel (by rw [hav]) (fun _ => ⟨h, rfl⟩) fun _ => ⟨?_, rfl⟩
  exact { h with
    allocation := congrArg (fun a => setEntry a pid rid (a pid rid + 1)) h.allocation
    request := congrArg (fun a => setEntry a pid rid 0) h.request
    active := congrArg (fun a => Function.update a pid true) h.active
    available := h.available_update rid (by rw [hav])
    active_mem := h.active_update hpid }

theorem deadlockRequest (h : Agree pids g g') (hpid : pid ∈ pids) (rid : ℤ) :
    AgreeWith pids (deadlockRequest g pid rid) (deadlockRequest g' pid rid) := by
  refine ite_rel Iff.rfl (fun _ => ⟨h, rfl⟩) fun _ => ite_rel Iff.rfl (fun _ => ⟨h, rfl⟩) fun hr => ?_
  refine ite_rel (by rw [h.allocation]) (fun _ => ⟨h, rfl⟩) fun _ => ?_
  have hreq : Agree pids
      { g with request := setEntry g.request pid rid 1, active := Function.update g.active pid true }
      { g' with
        request := setEntry g'.request pid rid 1
        active := Function.update g'.active pid true } :=
    { h with
      request := congrArg (fun a => setEntry a pid rid 1) h.request
      active := congrArg (fun a => Function.update a pid true) h.active
      active_mem := h.active_update hpid }
  refine ite_rel (by rw [h.available rid (not_not.mp hr)])
    (fun _ => hreq.deadlockAlloc hpid rid) fun _ => ?_
  refine ite_rel (by rw [h.waitPid]) (fun _ => ⟨?_, rfl⟩) fun _ => ⟨hreq, rfl⟩
  exact { hreq with
    waitPid := congrArg (fun w => Function.update w rid (w rid ++ [pid])) h.waitPid }

theorem deadlockRelease (h : Agree pids g g') (pid rid : ℤ) :
    Agree pids (deadlockRelease g pid rid) (deadlockRelease g' pid rid) := by
  refine ite_rel Iff.rfl (fun _ => h) fun _ => ite_rel Iff.rfl (fun _ => h) fun hr => ?_
  refine ite_rel (by rw [h.allocation]) (fun _ => h) fun _ => ?_
  exact { h with
    allocation := congrArg (fun a => setEntry a pid rid (a pid rid - 1)) h.allocation
    available := h.available_update rid (by rw [h.available rid (not_not.mp hr)]) }

theorem releaseAll (pid rid : ℤ) : ∀ (fuel : ℕ) {g g' : ResourceGraph}, Agree pids g g' →
    Agree pids (releaseAll pid rid fuel g) (releaseAll pid rid fuel g')
  | 0, _, _, h => h
  | fuel + 1, _, _, h =>
    ite_rel (by rw [h.allocation]) (fun _ => releaseAll pid rid fuel (h.deadlockRelease pid rid))
      fun _ => h

theorem cleanupResource (h : Agree pids g g') (pid rid : ℤ) :
    Agree pids (cleanupResource pid g rid) (cleanupResource pid g' rid) := by
  unfold FleetOS.cleanupResource
  rw [h.allocation]
  have hr := releaseAll pid rid (g.allocation pid rid).toNat h
  exact { hr with request := congrArg (fun a => setEntry a pid rid 0) hr.request }

theorem deadlockCleanupProcess (h : Agree pids g g') (pid : ℤ) :
    Agree pids (deadlockCleanupProcess g pid) (deadlockCleanupProcess g' pid) := by
  refine ite_rel Iff.rfl (fun _ => h) fun _ => ?_
  have hr : Agree pids (resourceIndices.foldl (FleetOS.cleanupResource pid) g)
      (resourceIndices.foldl (FleetOS.cleanupResource pid) g') :=
    List.foldl_rel h fun rid _ g g' hg => hg.cleanupResource pid rid
  refine { hr with
    active := congrArg (fun a => Function.update a pid false) hr.active
    active_mem := fun q hq => ?_ }
  dsimp only at hq
  rw [Function.update_apply] at hq
  split_ifs at hq
  exact hr.active_mem q hq

/-- The passes over a wait queue, up to what they leave of the graph. -/
structure AgreeResult (pids : Set ℤ) (r r' : WakeResult) : Prop where
  graph : Agree pids r.graph r'.graph
  entries : r'.entries = r.entries
  woken : r'.woken = r.woken

theorem scanWaiters {rid : ℤ} (hrid : validRid rid) : ∀ (queue : List ℤ) {g g' : ResourceGraph},
    Agree pids g g' → AgreeResult pids (scanWaiters rid g queue) (scanWaiters rid g' queue)
  | [], _, _, h => ⟨h, rfl, rfl⟩
  | wpid :: rest, g, g', h => by
    have hskip := scanWaiters hrid rest h
    refine ite_rel Iff.rfl
      (fun _ => ⟨hskip.graph, congrArg (wpid :: ·) hskip.entries, hskip.woken⟩) fun _ => ?_
    refine ite_rel (by rw [h.isActive])
      (fun _ => ⟨hskip.graph, congrArg (-1 :: ·) hskip.entries, hskip.woken⟩) fun hact => ?_
    refine ite_rel (by rw [h.available rid hrid]) (fun _ => ?_)
      fun _ => ⟨hskip.graph, congrArg (wpid :: ·) hskip.entries, hskip.woken⟩
    have hmem : wpid ∈ pids := h.mem_of_isActive (by simpa using hact)
    have hserve := scanWaiters hrid rest (h.deadlockAlloc hmem rid).1
    exact ⟨hserve.graph, congrArg (-1 :: ·) hserve.entries, congrArg (wpid :: ·) hserve.woken⟩

theorem deadlockWakeWaiters (h : Agree pids g g') (rid : ℤ) :
    AgreeWith pids (deadlockWakeWaiters g rid) (deadlockWakeWaiters g' rid) := by
  refine ite_rel Iff.rfl (fun _ => ⟨h, rfl⟩) fun hr => ?_
  rw [h.waitPid]
  have hs := scanWaiters (not_not.mp hr) (g.waitPid rid) h
  refine ⟨{ hs.graph with waitPid := ?_ }, hs.woken⟩
  exact congrArg₂ (fun w e => Function.update w rid (e.filter fun p => 0 ≤ p)) hs.graph.waitPid
    hs.entries

theorem wakeAllWaiters (h : Agree pids g g') :
    AgreeWith pids (wakeAllWaiters g) (wakeAllWaiters g') := by
  refine List.foldl_rel (r := AgreeWith pids) ⟨h, rfl⟩ fun rid _ s s' hs => ?_
  have hw := hs.1.deadlockWakeWaiters rid
  exact ⟨hw.1, congrArg₂ (· ++ ·) hs.2 hw.2⟩

theorem deadlockResolve (h : Agree pids g g') (pid : ℤ) :
    AgreeWith pids (deadlockResolve g pid) (deadlockResolve g' pid) :=
  ite_rel Iff.rfl (fun _ => ⟨h, rfl⟩) fun _ => (h.deadlockCleanupProcess pid).wakeAllWaiters

/-! ## The search for a deadlock -/

theorem hasOutgoingRequest (h : Agree pids g g') (pid : ℤ) :
    hasOutgoingRequest g' pid = hasOutgoingRequest g pid := by
  rw [FleetOS.hasOutgoingRequest, FleetOS.hasOutgoingRequest, h.isActive, h.request]

theorem dfsCycle (h : Agree pids g g') (pid : ℤ) (marks : CycleSearch.Marks ℤ) :
    dfsCycle g' pid marks = dfsCycle g pid marks := by
  have hedges : waitsFor g' = waitsFor g := by
    funext pid
    rw [waitsFor, waitsFor, h.isActive, h.request, h.allocation]
  rw [FleetOS.dfsCycle, FleetOS.dfsCycle, hedges]

/-- The same victim so far, if there is one, with a priority both graphs agree on. -/
def Picked (pids : Set ℤ) (victim victim' : ℤ) : Prop :=
  victim' = victim ∧ (victim < 0 ∨ victim ∈ pids)

theorem pickVictim (h : Agree pids g g') {i : ℤ} (hi : i ∈ pids) {v v' : ℤ} (hv : Picked pids v v') :
    Picked pids (pickVictim g v i) (pickVictim g' v' i) := by
  obtain ⟨rfl, hmem⟩ := hv
  refine ite_rel ?_ (fun _ => ⟨rfl, Or.inr hi⟩) fun _ => ⟨rfl, hmem⟩
  rcases hmem with hneg | hmem
  · simp only [hneg, true_or]
  · rw [h.priority i hi, h.priority _ hmem]

theorem detectFrom (h : Agree pids g g') (pid : ℤ) {v v' : ℤ} (hv : Picked pids v v') :
    Picked pids (detectFrom g v pid) (detectFrom g' v' pid) := by
  refine ite_rel (by rw [h.isActive]) (fun _ => hv) fun _ =>
    ite_rel (by rw [h.hasOutgoingRequest]) (fun _ => hv) fun _ => ?_
  rw [h.dfsCycle, h.isActive]
  obtain ⟨found, marks⟩ := FleetOS.dfsCycle g pid .empty
  refine ite_rel Iff.rfl (fun _ => ?_) fun _ => hv
  refine List.foldl_rel (r := Picked pids) hv fun i hi v v' hv => h.pickVictim ?_ hv
  have hact := (List.mem_filter.mp hi).2
  simp only [decide_eq_true_eq] at hact
  exact h.mem_of_isActive hact.2

theorem deadlockDetect (h : Agree pids g g') : deadlockDetect g' = deadlockDetect g := by
  have hv : Picked pids (pidIndices.foldl (FleetOS.detectFrom g) (-1))
      (pidIndices.foldl (FleetOS.detectFrom g') (-1)) :=
    List.foldl_rel ⟨rfl, Or.inl (by decide)⟩ fun pid _ v v' hv => h.detectFrom pid hv
  rw [FleetOS.deadlockDetect, FleetOS.deadlockDetect, hv.1]

/-! ## Log lines and grants -/

theorem deadlockAllocLog (h : Agree pids g g') (pid rid tick : ℤ) :
    deadlockAllocLog g' pid rid tick = deadlockAllocLog g pid rid tick :=
  ite_eq Iff.rfl (fun _ => rfl) fun _ => ite_eq Iff.rfl (fun _ => rfl) fun hr =>
    ite_eq (by rw [h.available rid (not_not.mp hr)]) (fun _ => rfl) fun _ => rfl

theorem deadlockRequestLog (h : Agree pids g g') (pid rid tick : ℤ) :
    deadlockRequestLog g' pid rid tick = deadlockRequestLog g pid rid tick := by
  refine ite_eq Iff.rfl (fun _ => rfl) fun _ => ite_eq Iff.rfl (fun _ => rfl) fun hr =>
    ite_eq (by rw [h.allocation]) (fun _ => rfl) fun _ => ?_
  rw [h.available rid (not_not.mp hr), h.deadlockAllocLog]

theorem deadlockReleaseLog (h : Agree pids g g') (pid rid tick : ℤ) :
    deadlockReleaseLog g' pid rid tick = deadlockReleaseLog g pid rid tick := by
  rw [FleetOS.deadlockReleaseLog, FleetOS.deadlockReleaseLog, h.allocation]

theorem releaseAllLog (pid rid tick : ℤ) : ∀ (fuel : ℕ) {g g' : ResourceGraph}, Agree pids g g' →
    releaseAllLog pid rid tick fuel g' = releaseAllLog pid rid tick fuel g
  | 0, _, _, _ => rfl
  | fuel + 1, _, _, h =>
    ite_eq (by rw [h.allocation])
      (fun _ => congrArg₂ (· ++ ·) (h.deadlockReleaseLog pid rid tick)
        (releaseAllLog pid rid tick fuel (h.deadlockRelease pid rid)))
      fun _ => rfl

theorem deadlockCleanupProcessLog (h : Agree pids g g') (pid tick : ℤ) :
    deadlockCleanupProcessLog g' pid tick = deadlockCleanupProcessLog g pid tick := by
  refine ite_eq Iff.rfl (fun _ => rfl) fun _ => ?_
  refine foldOut_eq (fun rid _ g g' hg => hg.cleanupResource pid rid) (fun rid _ g g' hg => ?_) h
  rw [hg.allocation]
  exact releaseAllLog pid rid tick _ hg

theorem wakeGrants : ∀ (rids : List ℤ) {g g' : ResourceGraph}, Agree pids g g' →
    wakeGrants rids g' = wakeGrants rids g
  | [], _, _, _ => rfl
  | rid :: rids, _, _, h => by
    have hw := h.deadlockWakeWaiters rid
    rw [ResourceGraph.wakeGrants, ResourceGraph.wakeGrants, hw.2, wakeGrants rids hw.1]

end Agree

end ResourceGraph

end FleetOS
