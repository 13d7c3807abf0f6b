import FleetOS.BlockedThreads
import FleetOS.ResourceGrants
import FleetOS.WakeRelations

/-!
# Requests and the threads that wait

Who waits for a resource is in the graph by pid and in the TCBs by thread. The two agree
(`WaitsAgree`) when a process asks for a resource exactly if one of its threads is blocked for
it, and for the one resource that the process wants, since the phases of a process do not move
while it waits (`deadlockPhase_machineStep`).

A request, a grant with its callback, and the end of a process keep this. What does not is a
wake-up by the buffer, which resumes a thread that it finds under the pid of another process,
and a grant past a full queue, which leaves the other threads of the process blocked
(`KeepsWaiter`).
-/

namespace FleetOS

open ResourceGraph

/-- Thread `t` is blocked for a resource. -/
structure Kernel.WaitsOnResource (k : Kernel) (t : ℕ) : Prop where
  lt : t < k.threadCount
  blocked : (k.tcb t).state = .blocked
  reason : (k.tcb t).waitReason = .resourceWait

/-! ## The phases of the processes -/

def SamePhase (k k' : Kernel) : Prop := k'.deadlockPhase = k.deadlockPhase

theorem samePhase_syncPcb (k : Kernel) (p : ℕ) : SamePhase k (syncPcbStateFromThreads k p) := by
  unfold SamePhase syncPcbStateFromThreads
  dsimp only
  split_ifs <;> rfl

theorem samePhase_syncOwner (k : Kernel) (t : ℕ) : SamePhase k (syncOwner k t) := by
  unfold syncOwner
  split
  · rfl
  · exact samePhase_syncPcb k _

theorem samePhase_blockThread (k : Kernel) (t : ℕ) (reason : BlockReason) :
    SamePhase k (blockThread k t reason) := by
  unfold blockThread
  split_ifs
  · rfl
  · exact samePhase_syncOwner _ t

theorem threadRelation_samePhase : ThreadRelation SamePhase :=
  ⟨fun h h' => Eq.trans h' h, fun h => h.phase⟩

theorem wakeRelation_samePhase : WakeRelation SamePhase :=
  ⟨threadRelation_samePhase, fun {_ t} _ _ => samePhase_syncOwner _ t⟩

theorem endRelation_samePhase : EndRelation SamePhase :=
  ⟨threadRelation_samePhase, fun _ _ => rfl, fun _ _ => rfl⟩

theorem samePhase_checkArrivals (k : Kernel) : SamePhase k (checkArrivals k) :=
  threadRelation_samePhase.checkArrivals (fun _ _ => rfl) (fun _ _ => rfl) k

theorem samePhase_snapshotSync (k : Kernel) : SamePhase k (snapshotSync k) := by
  unfold snapshotSync
  split_ifs
  · refine threadRelation_samePhase.foldl (fun k p => ?_) _ k
    split_ifs
    · rfl
    · exact samePhase_syncPcb k p
  · rfl

theorem samePhase_triggerPageFault (k : Kernel) : SamePhase k (triggerPageFault k) := by
  rcases triggerPageFault_cases k with ⟨pcb, addr, he⟩ | he | ⟨t, p, pcb, addr, page, -, -, -, -, -, he⟩
  · rw [he]
    rfl
  · rw [he]
    rfl
  · rw [he, registerPageFault_rest]
    exact samePhase_blockThread _ t .pageFault

/-- The callback moves the phase of the process that is served. -/
theorem deadlockPhase_deadlockWakeCallback (k : Kernel) {p pid : ℤ} (h : p ≠ pid) :
    (deadlockWakeCallback k pid).deadlockPhase p = k.deadlockPhase p := by
  refine List.foldlRecOn (motive := fun k' : Kernel => k'.deadlockPhase p = k.deadlockPhase p)
    k.threads _ rfl fun k' hk' t _ => ?_
  split_ifs
  · have hs : (unblockThread k' t).deadlockPhase = k'.deadlockPhase := samePhase_syncOwner _ t
    change Function.update (unblockThread k' t).deadlockPhase pid _ p = _
    rw [Function.update_of_ne h, hs]
    exact hk'
  · exact hk'

theorem deadlockPhase_applyWoken (k : Kernel) (r : ResourceGraph × List ℤ) {p : ℤ} (h : p ∉ r.2) :
    (applyWoken k r).deadlockPhase p = k.deadlockPhase p := by
  refine List.foldlRecOn (motive := fun k' : Kernel => k'.deadlockPhase p = k.deadlockPhase p)
    r.2 deadlockWakeCallback (rfl : ({ k with graph := r.1 } : Kernel).deadlockPhase p = _)
    fun k' hk' pid hpid => ?_
  have hne : p ≠ pid := by
    rintro rfl
    exact h hpid
  exact (deadlockPhase_deadlockWakeCallback k' hne).trans hk'

/-- The phase of a process moves where it is served, or where it is given what it asks for. -/
theorem deadlockPhase_faulted {m : Kernel × Phase} (h : MachineTables m) {p : ℕ}
    (hf : faultedAt m = some p) {x : ℤ} (hx : x ∉ (deadlockResolve m.1.graph (m.1.procs p).pid).2) :
    (machineStep m).1.deadlockPhase x = m.1.deadlockPhase x := by
  obtain ⟨k, ph⟩ := m
  cases ph with
  | detect =>
    have hv : deadlockVictim k = some p := hf
    have hs := endRelation_samePhase.cleanupProcess
      (applyWoken k (deadlockResolve k.graph (k.procs p).pid)) p
    simp only [machineStep, detectDeadlock, hv]
    rw [hs]
    exact deadlockPhase_applyWoken k _ hx
  | crash =>
    have hc : crashedProcess k = some p := hf
    have hp := (faulted_injectCrash h.tables hc).lt
    have hs : SamePhase (releaseResources (withdraw k (k.procs p).pid) (k.procs p).pid)
        (cleanupProcess k p true) := by
      rw [cleanupProcess_eq, if_pos rfl]
      exact threadRelation_samePhase.trans (endRelation_samePhase.terminate _ p)
        (endRelation_samePhase.endThreads _ _)
    simp only [machineStep, injectCrash, hc]
    rw [hs]
    rw [deadlockResolve_eq (h.tables.pid_range p hp)] at hx
    exact deadlockPhase_applyWoken (withdraw k (k.procs p).pid) _ hx
  | _ => cases hf

/-- The result of the request that is made in this part of a tick. -/
def requestResult (k : Kernel) (t : ℕ) : ℤ :=
  (deadlockRequest k.graph (k.tcb t).ownerPid (wantedResource k (k.tcb t).ownerPid)).2

theorem requestingAt_some {m : Kernel × Phase} {t : ℕ} (h : requestingAt m = some t) :
    m.2 = .execute ∧ m.1.runningThread = some t ∧
      threadCurrentCommand (m.1.tcb t) = .acquireResource ∧ m.1.config.deadlockEnabled = true := by
  obtain ⟨k, ph⟩ := m
  cases ph with
  | execute =>
    obtain ⟨hrun, hc⟩ := Option.filter_eq_some_iff.mp h
    rw [decide_eq_true_eq] at hc
    exact ⟨rfl, hrun, hc⟩
  | _ => cases h

theorem requesting_step {m : Kernel × Phase} {t : ℕ} (h : requestingAt m = some t) :
    (machineStep m).1 = executeAcquire m.1 t ∧ takenIds m = [] := by
  obtain ⟨hph, hrun, hcmd, -⟩ := requestingAt_some h
  obtain ⟨k, ph⟩ := m
  obtain rfl : ph = .execute := hph
  have hrun : k.runningThread = some t := hrun
  have hcmd : threadCurrentCommand (k.tcb t) = .acquireResource := hcmd
  constructor
  · simp only [machineStep, hrun, executeCommand, hcmd]
  · simp only [takenIds, hrun, Option.map_some, Option.getD_some, executeWakes, hcmd]

theorem faultedAt_of_requesting {m : Kernel × Phase} {t : ℕ} (h : requestingAt m = some t) :
    faultedAt m = none := by
  obtain ⟨k, ph⟩ := m
  obtain ⟨rfl, -⟩ := requestingAt_some h
  rfl

theorem requestingAt_of_faulted {m : Kernel × Phase} {p : ℕ} (h : faultedAt m = some p) :
    requestingAt m = none := by
  by_contra hne
  obtain ⟨t, ht⟩ := Option.ne_none_iff_exists'.mp hne
  rw [faultedAt_of_requesting ht] at h
  cases h

/-- The request moves the phase of the process if the resource is free. -/
theorem deadlockPhase_executeAcquire (k : Kernel) (t : ℕ) {p : ℤ}
    (h : k.config.deadlockEnabled = true → requestResult k t = 0 → p ≠ (k.tcb t).ownerPid) :
    (executeAcquire k t).deadlockPhase p = k.deadlockPhase p := by
  unfold executeAcquire
  dsimp only
  split_ifs with hon hfree
  · exact Function.update_of_ne (h hon hfree) _ _
  · rfl
  · exact congrFun (samePhase_blockThread _ t .resourceWait) p
  · rfl

/-- The thread blocks if it has to wait, and runs on if not. -/
theorem executeAcquire_threads {k : Kernel} (h : Tables k) {t : ℕ} (hrun : k.runningThread = some t)
    (hon : k.config.deadlockEnabled = true) :
    (requestResult k t = -1 → Blocked k (executeAcquire k t) t .resourceWait) ∧
      (requestResult k t = 0 ∨ requestResult k t = 1 →
        ((executeAcquire k t).tcb t).state = .running) := by
  obtain ⟨-, hstate⟩ := runningThread_some hrun
  have hadvance : ∀ k₁ : Kernel, k₁.sched = k.sched →
      ((k₁.setTcb t TCB.advance).tcb t).state = .running := by
    intro k₁ hs
    rw [Kernel.tcb, Kernel.setTcb, hs, Scheduler.setTcb_self]
    exact hstate
  unfold executeAcquire
  rw [if_pos hon]
  dsimp only
  constructor
  · intro hres
    have hres : (deadlockRequest k.graph (k.tcb t).ownerPid
        (wantedResource k (k.tcb t).ownerPid)).2 = -1 := hres
    rw [hres, if_neg (by decide), if_neg (by decide)]
    exact blocked_blockThread_of_sched h hrun (by rfl) .resourceWait
  · intro hres
    split_ifs with hfree hheld
    · exact hadvance _ rfl
    · exact hadvance _ rfl
    · exact absurd hres (not_or.mpr ⟨hfree, hheld⟩)

theorem deadlockPhase_executeCommand (k : Kernel) (t : ℕ) {p : ℤ}
    (h : threadCurrentCommand (k.tcb t) = .acquireResource → k.config.deadlockEnabled = true →
      requestResult k t = 0 → p ≠ (k.tcb t).ownerPid) :
    (executeCommand k t).deadlockPhase p = k.deadlockPhase p := by
  by_cases hc : threadCurrentCommand (k.tcb t) = .acquireResource
  · have he : executeCommand k t = executeAcquire k t := by rw [executeCommand, hc]
    rw [he]
    exact deadlockPhase_executeAcquire k t (h hc)
  · have hx := commandEffect k t
    generalize executeCommand k t = k' at hx ⊢
    cases hx with
    | @ran k₁ _ hp =>
      exact congrFun ((wakeRelation_samePhase.wakeThreads (k₁.setTcb t threadExecute) _).trans hp) p
    | @refused k₁ _ hp _ _ => exact congrFun ((samePhase_blockThread k₁ t _).trans hp) p
    | acquired _ hc' _ => exact absurd hc' hc
    | @wrote k₁ _ hp _ pid path =>
      rw [registerIo_rest]
      exact congrFun ((samePhase_blockThread (k₁.setTcb t TCB.advance) t .ioBlock).trans hp) p

theorem deadlockPhase_machineStep {m : Kernel × Phase} (hf : faultedAt m = none) {x : ℤ}
    (hx : ∀ t, requestingAt m = some t → requestResult m.1 t = 0 → x ≠ (m.1.tcb t).ownerPid) :
    (machineStep m).1.deadlockPhase x = m.1.deadlockPhase x := by
  obtain ⟨k, ph⟩ := m
  cases ph with
  | top =>
    simp only [machineStep]
    split_ifs <;> rfl
  | arrivals => exact congrFun (samePhase_checkArrivals k) x
  | ioEvents =>
    exact congrFun (threadRelation_samePhase.foldl wakeRelation_samePhase.completeIoEvent _ k) x
  | pageFaults =>
    exact congrFun (threadRelation_samePhase.foldl wakeRelation_samePhase.completePageFault _ k) x
  | dispatch =>
    simp only [machineStep, ensureRunning]
    split_ifs <;> rfl
  | execute =>
    cases hrun : k.runningThread with
    | none => simp only [machineStep, hrun]
    | some t =>
      simp only [machineStep, hrun]
      refine deadlockPhase_executeCommand k t fun hc hon => hx t ?_
      simp only [requestingAt, hrun, Option.filter_some, hc, hon, and_self, decide_true, if_true]
  | retire t => exact congrFun (endRelation_samePhase.retire rfl) x
  | detect =>
    have hv : deadlockVictim k = none := hf
    simp only [machineStep, detectDeadlock, hv]
  | crash =>
    have hc : crashedProcess k = none := hf
    simp only [machineStep, injectCrash, hc]
  | pageFault => exact congrFun (samePhase_triggerPageFault k) x
  | snapshot => exact congrFun (samePhase_snapshotSync k) x
  | wakeWaiters => exact congrFun (wakeRelation_samePhase.wakeBufferWaiters k) x
  | finish =>
    simp only [machineStep]
    split_ifs <;> rfl
  | compact => rfl
  | schedTick => rfl
  | waitTime => rfl
  | halted => rfl

/-! ## The threads that wait -/

theorem validRid_wantedResource (k : Kernel) (pid : ℤ) : validRid (wantedResource k pid) := by
  unfold wantedResource
  split_ifs <;> decide

/-- What a process wants depends on its phase only. -/
theorem wantedResource_congr {k k' : Kernel} {pid : ℤ}
    (h : k'.deadlockPhase pid = k.deadlockPhase pid) : wantedResource k' pid = wantedResource k pid := by
  unfold wantedResource
  by_cases h0 : pid = 0
  · subst h0
    rw [if_pos rfl, if_pos rfl, h]
  · simp only [if_neg h0]
    by_cases h1 : pid = 1
    · subst h1
      rw [h]
    · simp only [if_neg h1]

variable {m : Kernel × Phase}

theorem Kernel.WaitsOnResource.congr {k k' : Kernel} {t : ℕ} (h : k.WaitsOnResource t)
    (hn : k'.threadCount = k.threadCount) (ht : k'.tcb t = k.tcb t) : k'.WaitsOnResource t :=
  ⟨hn ▸ h.lt, ht ▸ h.blocked, ht ▸ h.reason⟩

theorem ownerPid_machineStep (h : MachineTables m) (t : ℕ) :
    ((machineStep m).1.tcb t).ownerPid = (m.1.tcb t).ownerPid :=
  congrArg (fun i => i.2.1) ((tableStep h).ident t)

/-- Only a request makes a thread wait. -/
theorem waits_before (h : MachineTables m) {t : ℕ} (hw : (machineStep m).1.WaitsOnResource t) :
    m.1.WaitsOnResource t ∨ requestingAt m = some t := by
  rcases blocked_before h hw.blocked with hsame | ⟨hrun, hfor⟩
  · exact Or.inl (hw.congr (tableStep h).threadCount.symm hsame.symm)
  · right
    rw [hw.reason] at hfor
    obtain ⟨k, ph⟩ := m
    cases ph with
    | execute =>
      have hc : threadCurrentCommand (k.tcb t) = .acquireResource := by
        obtain ⟨-, hreason⟩ := hfor
        cases hc : threadCurrentCommand (k.tcb t) <;> rw [hc] at hreason <;>
          first | rfl | cases hreason
      have hon : k.config.deadlockEnabled = true := by
        by_contra hoff
        have hb := hw.blocked
        simp only [machineStep, hrun, executeCommand, hc, executeAcquire, if_neg hoff] at hb
        rw [Kernel.tcb, Kernel.setTcb, Scheduler.setTcb_self, state_threadExecute] at hb
        have hstate : (k.sched.tcb t).state = .running := (runningThread_some hrun).2
        rw [hstate] at hb
        cases hb
      simp only [requestingAt, hrun, Option.filter_some, hc, hon, and_self, decide_true, if_true]
    | pageFault => cases hfor
    | _ => exact hfor.elim

/-- A process that ends with its last thread has no thread that waits. -/
theorem not_endingAt_of_blocked (h : MachineTables m) (hf : faultedAt m = none) {t p : ℕ}
    (ht : t < m.1.threadCount) (hb : (m.1.tcb t).state = .blocked) (he : endingAt m = some p) :
    (m.1.tcb t).ownerPid ≠ (m.1.procs p).pid := by
  intro ho
  obtain ⟨k, ph⟩ := m
  cases ph with
  | retire r =>
    have he : endingProcess k r = some p := he
    rcases retire_cases h.tables r with
      ⟨-, hn⟩ | ⟨hrun, s, hframe, -, -, ⟨hn, -⟩ | ⟨q, hq, -, -, hall, -, -, -⟩⟩
    · rw [hn] at he
      cases he
    · rw [hn] at he
      cases he
    · obtain rfl : q = p := Option.some.inj (hq.symm.trans he)
      have htr : t ∉ ({r} : Set ℕ) := by
        rintro rfl
        rw [hb] at hrun
        cases hrun
      have hsame := (hframe.parked t htr (h.tables.parked_of_blocked hb)).1
      have hdone := hall t ⟨ht, ho⟩
      have hb : (k.sched.tcb t).state = .blocked := hb
      rw [hsame, hb] at hdone
      cases hdone
  | detect => exact absurd he (ne_of_eq_of_ne hf (Option.some_ne_none p).symm)
  | crash => exact absurd he (ne_of_eq_of_ne hf (Option.some_ne_none p).symm)
  | _ => cases he

/-- Where no process falls victim or crashes, only ids of the buffer resume a thread that waits. -/
theorem waits_after (h : MachineTables m) (hf : faultedAt m = none) {t : ℕ}
    (hw : m.1.WaitsOnResource t) (ht : t ∉ resolvedBy m.1 (takenIds m)) :
    (machineStep m).1.WaitsOnResource t := by
  rcases blocked_machineStep h hw.blocked with hsame | ⟨hwoken, -⟩ | ⟨p, he, ho⟩
  · exact hw.congr (tableStep h).threadCount hsame
  · cases hwoken with
    | taken htaken => exact absurd htaken ht
    | due reason hp i hi ha =>
      have hr := ha.reason.symm.trans hw.reason
      rcases hp with ⟨-, rfl⟩ | ⟨-, rfl⟩ <;> cases hr
    | served hne _ _ => exact absurd hf hne
  · exact absurd ho (not_endingAt_of_blocked h hf hw.lt hw.blocked he)

theorem waits_before_of_quiet (h : MachineTables m) (hreq : requestingAt m = none) {t : ℕ}
    (hw : (machineStep m).1.WaitsOnResource t) : m.1.WaitsOnResource t := by
  refine (waits_before h hw).resolve_right fun hr => ?_
  rw [hreq] at hr
  cases hr

/-- A request takes no ids from the buffer. -/
theorem waits_after_request (h : MachineTables m) {t u : ℕ} (hreq : requestingAt m = some t)
    (hw : m.1.WaitsOnResource u) : (machineStep m).1.WaitsOnResource u :=
  waits_after h (faultedAt_of_requesting hreq) hw (not_mem_resolvedBy (requesting_step hreq).2 u)

theorem Kernel.WaitsOnResource.served {k : Kernel} {t : ℕ} (h : k.WaitsOnResource t) {pids : List ℤ}
    (hmem : (k.tcb t).ownerPid ∈ pids) : t ∈ servedBy k pids :=
  ⟨h.lt, hmem, h.blocked, h.reason⟩

/-- Where process `p` falls victim or crashes, a thread of another process is resumed if its
process is served, and left alone if not. -/
theorem faulted_other (h : MachineTables m) {p : ℕ} (hf : faultedAt m = some p) {t : ℕ}
    (ho : (m.1.tcb t).ownerPid ≠ (m.1.procs p).pid) :
    (t ∈ servedBy m.1 (deadlockResolve m.1.graph (m.1.procs p).pid).2 →
        ((machineStep m).1.tcb t).state = .ready) ∧
      (t ∉ servedBy m.1 (deadlockResolve m.1.graph (m.1.procs p).pid).2 →
        (machineStep m).1.tcb t = m.1.tcb t) := by
  obtain ⟨s, hq, hend⟩ := (faulted_machineStep h hf).threads
  have hsame : (machineStep m).1.tcb t = s.tcb t := hend.same t fun ht => ho ht.2
  rw [hsame]
  exact ⟨fun hs => hq.ready t hs, fun hs => hq.same t hs⟩

/-- Who waits after that has waited before, for a process that is left and was not served. -/
theorem waits_before_faulted (h : MachineTables m) {p : ℕ} (hf : faultedAt m = some p) {t : ℕ}
    (hw : (machineStep m).1.WaitsOnResource t) :
    m.1.WaitsOnResource t ∧ (m.1.tcb t).ownerPid ≠ (m.1.procs p).pid ∧
      (m.1.tcb t).ownerPid ∉ (deadlockResolve m.1.graph (m.1.procs p).pid).2 := by
  have hold := waits_before_of_quiet h (requestingAt_of_faulted hf) hw
  have ho : (m.1.tcb t).ownerPid ≠ (m.1.procs p).pid := by
    intro ho
    obtain ⟨s, -, hend⟩ := (faulted_machineStep h hf).threads
    have hdone : ((machineStep m).1.tcb t).state = .done := hend.done t ⟨hold.lt, ho⟩
    rw [hw.blocked] at hdone
    cases hdone
  refine ⟨hold, ho, fun hmem => ?_⟩
  have hready := (faulted_other h hf ho).1 (hold.served hmem)
  rw [hw.blocked] at hready
  cases hready

/-! ## Agreement -/

/-- Both records agree, `asked t` being the resource that thread `t` has asked for last. -/
structure WaitsAgree (k : Kernel) (asked : ℕ → ℤ) : Prop where
  graph : k.graph.Asking
  queues : k.graph.QueuesActive
  waiting : ∀ p r, k.graph.request p r = 1 → ∃ t, k.WaitsOnResource t ∧ (k.tcb t).ownerPid = p
  requested : ∀ t, k.WaitsOnResource t → k.graph.request (k.tcb t).ownerPid (asked t) = 1
  wanted : ∀ t, k.WaitsOnResource t → wantedResource k (k.tcb t).ownerPid = asked t

/-- The two records stay together in the next part of the tick. If the ids that it takes from the
buffer resume threads that wait for a resource, another thread of the process waits on, and a
process is not given at once a resource that one of its threads waits for. -/
structure KeepsWaiter (m : Kernel × Phase) : Prop where
  resumed : ∀ t ∈ resolvedBy m.1 (takenIds m), m.1.WaitsOnResource t →
    ∃ u ∉ resolvedBy m.1 (takenIds m), m.1.WaitsOnResource u ∧
      (m.1.tcb u).ownerPid = (m.1.tcb t).ownerPid
  granted : ∀ t, requestingAt m = some t →
    m.1.graph.allocation (m.1.tcb t).ownerPid (wantedResource m.1 (m.1.tcb t).ownerPid) ≤ 0 →
    0 < m.1.graph.available (wantedResource m.1 (m.1.tcb t).ownerPid) →
    ∀ u, m.1.WaitsOnResource u → (m.1.tcb u).ownerPid ≠ (m.1.tcb t).ownerPid

/-- An active process asks for a resource exactly when one of its threads is blocked for one. -/
def RequestsMatch (k : Kernel) : Prop :=
  ∀ p, isActive k.graph p = true →
    ((∃ r, k.graph.request p r = 1) ↔ ∃ t, k.WaitsOnResource t ∧ (k.tcb t).ownerPid = p)

namespace WaitsAgree

variable {asked : ℕ → ℤ}

/-- What a process asks for is what its waiting threads have asked for. -/
theorem asked_eq (h : WaitsAgree m.1 asked) {t : ℕ} {r : ℤ} (hw : m.1.WaitsOnResource t)
    (hr : m.1.graph.request (m.1.tcb t).ownerPid r = 1) : asked t = r :=
  h.graph.one _ _ _ (h.requested t hw) hr

/-- A part of a tick in which nobody asks, and no process falls victim or crashes. -/
theorem quiet (h : WaitsAgree m.1 asked) (ht : MachineTables m) (hf : faultedAt m = none)
    (hreq : requestingAt m = none) (hk : KeepsWaiter m) : WaitsAgree (machineStep m).1 asked := by
  have hg : (machineStep m).1.graph = m.1.graph := by rw [graph_machineStep ht hf, hreq]
  have hphase : ∀ x, (machineStep m).1.deadlockPhase x = m.1.deadlockPhase x := by
    refine fun x => deadlockPhase_machineStep hf fun t hr => ?_
    rw [hreq] at hr
    cases hr
  have hbefore := fun t => waits_before_of_quiet ht hreq (t := t)
  refine ⟨hg ▸ h.graph, hg ▸ h.queues, fun p r hr => ?_, fun t hw => ?_, fun t hw => ?_⟩
  · rw [hg] at hr
    obtain ⟨t, hw, ho⟩ := h.waiting p r hr
    by_cases htaken : t ∈ resolvedBy m.1 (takenIds m)
    · obtain ⟨u, hu, hwu, hou⟩ := hk.resumed t htaken hw
      exact ⟨u, waits_after ht hf hwu hu, (ownerPid_machineStep ht u).trans (hou.trans ho)⟩
    · exact ⟨t, waits_after ht hf hw htaken, (ownerPid_machineStep ht t).trans ho⟩
  · rw [hg, ownerPid_machineStep ht]
    exact h.requested t (hbefore t hw)
  · rw [ownerPid_machineStep ht, wantedResource_congr (hphase _)]
    exact h.wanted t (hbefore t hw)

theorem requestsMatch (h : WaitsAgree m.1 asked) : RequestsMatch m.1 := by
  intro p _
  constructor
  · rintro ⟨r, hr⟩
    exact h.waiting p r hr
  · rintro ⟨t, ht, rfl⟩
    exact ⟨asked t, h.requested t ht⟩

/-- A process that waits already asks for the same resource again. -/
theorem requests (h : WaitsAgree m.1 asked) (ht : MachineTables m) {t : ℕ}
    (hreq : requestingAt m = some t) :
    Requested m.1.graph (m.1.tcb t).ownerPid (wantedResource m.1 (m.1.tcb t).ownerPid) := by
  obtain ⟨-, hrun, -⟩ := requestingAt_some hreq
  refine h.graph.deadlockRequest h.queues (ht.tables.owner_valid (ht.tables.running_lt hrun))
    (validRid_wantedResource _ _) fun r hr => ?_
  obtain ⟨u, hu, ho⟩ := h.waiting _ r hr
  have hasked : asked u = r := h.asked_eq hu (by rw [ho]; exact hr)
  rw [← hasked, ← h.wanted u hu, ho]

/-- If a thread of the process waits after it has asked, it is refused : the thread that asks
would run on otherwise, and one that waited before is not passed over. -/
theorem refused (h : WaitsAgree m.1 asked) (ht : MachineTables m) {t u : ℕ}
    (hreq : requestingAt m = some t) (hk : KeepsWaiter m) (hw : (machineStep m).1.WaitsOnResource u)
    (ho : (m.1.tcb u).ownerPid = (m.1.tcb t).ownerPid) : requestResult m.1 t = -1 := by
  obtain ⟨-, hrun, -, hon⟩ := requestingAt_some hreq
  obtain ⟨-, hruns⟩ := executeAcquire_threads ht.tables hrun hon
  rw [← (requesting_step hreq).1] at hruns
  have hbefore : requestResult m.1 t = 0 ∨ requestResult m.1 t = 1 → m.1.WaitsOnResource u := by
    intro hres
    refine (waits_before ht hw).resolve_right fun he => ?_
    obtain rfl : t = u := Option.some.inj (hreq.symm.trans he)
    have hstate := hruns hres
    rw [hw.blocked] at hstate
    cases hstate
  rcases (h.requests ht hreq).result with hres | ⟨hres, h0⟩ | ⟨hres, hheld, hav⟩
  · exact hres
  · have hu := hbefore (Or.inr hres)
    have h1 := h.requested u hu
    rw [ho, ← h.wanted u hu, ho, h0] at h1
    cases h1
  · exact absurd ho (hk.granted t hreq hheld hav u (hbefore (Or.inl hres)))

/-- A part of a tick in which thread `t` asks. -/
theorem request (h : WaitsAgree m.1 asked) (ht : MachineTables m) (hf : faultedAt m = none) {t : ℕ}
    (hreq : requestingAt m = some t) (hk : KeepsWaiter m) :
    WaitsAgree (machineStep m).1
      (Function.update asked t (wantedResource m.1 (m.1.tcb t).ownerPid)) := by
  obtain ⟨-, hrun, -, hon⟩ := requestingAt_some hreq
  have howner := ownerPid_machineStep ht
  have hg := graph_machineStep ht hf
  rw [hreq] at hg
  dsimp only at hg
  have hr := h.requests ht hreq
  have hres : (deadlockRequest m.1.graph (m.1.tcb t).ownerPid
      (wantedResource m.1 (m.1.tcb t).ownerPid)).2 = requestResult m.1 t := rfl
  have hbefore : ∀ u, u ≠ t → (machineStep m).1.WaitsOnResource u → m.1.WaitsOnResource u := by
    intro u hu hw
    refine (waits_before ht hw).resolve_right fun he => hu ?_
    exact Option.some.inj (he.symm.trans hreq)
  refine ⟨hg ▸ hr.asking, hg ▸ hr.queues, fun x r h1 => ?_, fun u hw => ?_, fun u hw => ?_⟩
  · rw [hg, hr.request, hres] at h1
    split_ifs at h1 with hx hneg
    · obtain ⟨hblocks, -⟩ := executeAcquire_threads ht.tables hrun hon
      have hb := hblocks hneg
      rw [← (requesting_step hreq).1] at hb
      refine ⟨t, ⟨?_, hb.blocked, hb.waitReason⟩, (howner t).trans hx.1.symm⟩
      rw [(tableStep ht).threadCount]
      exact ht.tables.running_lt hrun
    · cases h1
    · obtain ⟨u, hw, ho⟩ := h.waiting x r h1
      exact ⟨u, waits_after_request ht hreq hw, (howner u).trans ho⟩
  · rw [hg, howner, hr.request, hres]
    split_ifs with hx hneg
    · rfl
    · exact absurd (h.refused ht hreq hk hw hx.1) hneg
    · by_cases hu : u = t
      · rw [hu, Function.update_self] at hx
        exact absurd ⟨rfl, rfl⟩ hx
      · rw [Function.update_of_ne hu]
        exact h.requested u (hbefore u hu hw)
  · have hphase : (machineStep m).1.deadlockPhase (m.1.tcb u).ownerPid =
        m.1.deadlockPhase (m.1.tcb u).ownerPid := by
      refine deadlockPhase_machineStep hf fun v hv hzero ho => ?_
      obtain rfl : v = t := Option.some.inj (hv.symm.trans hreq)
      rw [h.refused ht hreq hk hw ho] at hzero
      cases hzero
    rw [howner, wantedResource_congr hphase]
    by_cases hu : u = t
    · rw [hu, Function.update_self]
    · rw [Function.update_of_ne hu]
      exact h.wanted u (hbefore u hu hw)

/-- Where ids of the buffer are taken nobody asks. -/
theorem requestingAt_of_taken {t : ℕ} (h : t ∈ resolvedBy m.1 (takenIds m)) :
    requestingAt m = none ∧ faultedAt m = none := by
  refine ⟨?_, ?_⟩
  · by_contra hne
    obtain ⟨u, hu⟩ := Option.ne_none_iff_exists'.mp hne
    exact not_mem_resolvedBy (requesting_step hu).2 t h
  · by_contra hne
    obtain ⟨p, hp⟩ := Option.ne_none_iff_exists'.mp hne
    exact not_mem_resolvedBy (takenIds_eq_nil_of_endingAt (endingAt_of_faultedAt hp)) t h

/-- A part of a tick after which the records agree keeps a waiter. -/
theorem keepsWaiter (h : WaitsAgree m.1 asked) (ht : MachineTables m)
    (hagree : RequestsMatch (machineStep m).1) : KeepsWaiter m := by
  refine ⟨fun t htaken hw => ?_, fun t hreq hheld hav u hw ho => ?_⟩
  · obtain ⟨hreq, hf⟩ := requestingAt_of_taken htaken
    have hg : (machineStep m).1.graph = m.1.graph := by rw [graph_machineStep ht hf, hreq]
    have h1 := h.requested t hw
    have hact : isActive (machineStep m).1.graph (m.1.tcb t).ownerPid = true := by
      rw [hg, isActive_iff h.graph.units.rows]
      refine (h.graph.units.rows.request_active _ (asked t) ?_).2
      rw [h1]
      decide
    obtain ⟨u, hu, ho⟩ := (hagree _ hact).mp ⟨asked t, hg.symm ▸ h1⟩
    refine ⟨u, fun hmem => ?_, ?_, (ownerPid_machineStep ht u).symm.trans ho⟩
    · have hready := ready_of_taken ht hmem
      rw [hu.blocked] at hready
      cases hready
    · exact waits_before_of_quiet ht hreq hu
  · obtain ⟨-, hrun, -⟩ := requestingAt_some hreq
    have hf : faultedAt m = none := faultedAt_of_requesting hreq
    have hr := h.requests ht hreq
    have hg := graph_machineStep ht hf
    rw [hreq] at hg
    dsimp only at hg
    have hvalid := ht.tables.owner_valid (ht.tables.running_lt hrun)
    -- the process is given the resource, and asks for none afterwards
    have hres : (deadlockRequest m.1.graph (m.1.tcb t).ownerPid
        (wantedResource m.1 (m.1.tcb t).ownerPid)).2 = 0 := by
      rcases deadlockRequest_asked m.1.graph hvalid (validRid_wantedResource m.1 _) hheld with
        ⟨-, he⟩ | ⟨hno, -⟩ | ⟨hno, -⟩
      · rw [he]
      · exact absurd hav (not_lt.mpr hno)
      · exact absurd hav (not_lt.mpr hno)
    have hafter := waits_after_request ht hreq hw
    have hact : isActive (machineStep m).1.graph (m.1.tcb t).ownerPid = true := by
      rw [hg]
      exact (deadlockRequest_row m.1.graph hvalid (validRid_wantedResource m.1 _) hheld).1
    obtain ⟨r, h1⟩ := (hagree _ hact).mpr ⟨u, hafter, (ownerPid_machineStep ht u).trans ho⟩
    rw [hg, hr.request, hres] at h1
    split_ifs at h1 with hx hneg
    · cases hneg
    · cases h1
    · have hasked : asked u = r := h.asked_eq hw (by rw [ho]; exact h1)
      rw [← h.wanted u hw, ho] at hasked
      exact hx ⟨rfl, hasked.symm⟩

/-- A part of a tick in which process `p` falls victim to a deadlock or crashes : each grant that
follows resumes a thread that has asked for the resource, and the others wait on. -/
theorem faulted (h : WaitsAgree m.1 asked) (ht : MachineTables m) {p : ℕ}
    (hf : faultedAt m = some p) :
    WaitsAgree (machineStep m).1 asked ∧
      ∀ x ∈ resolveGrants m.1.graph (m.1.procs p).pid, ∃ t, m.1.WaitsOnResource t ∧
        (m.1.tcb t).ownerPid = x.1 ∧ asked t = x.2 ∧ ((machineStep m).1.tcb t).state = .ready := by
  have hfault := faulted_machineStep ht hf
  have hr := h.graph.resolve (ht.tables.pid_range p hfault.lt)
  have howner := ownerPid_machineStep ht
  set pid := (m.1.procs p).pid with hpid
  refine ⟨⟨hfault.graph ▸ hr.asking, hfault.graph ▸ hr.queues, fun x r h1 => ?_, fun u hw => ?_,
    fun u hw => ?_⟩, fun x hx => ?_⟩
  · rw [hfault.graph, hr.request] at h1
    obtain ⟨hnot, h1⟩ := of_cleared h1
    obtain ⟨hx, hgrant⟩ := not_or.mp hnot
    obtain ⟨u, hw, ho⟩ := h.waiting x r h1
    have hkept : u ∉ servedBy m.1 (deadlockResolve m.1.graph pid).2 := by
      rintro ⟨-, hserved, -⟩
      rw [ho, hr.woken] at hserved
      obtain ⟨y, hy, rfl⟩ := List.mem_map.mp hserved
      rw [h.graph.one y.1 r y.2 h1 (hr.asked y hy).2] at hgrant
      exact hgrant hy
    exact ⟨u, hw.congr (tableStep ht).threadCount ((faulted_other ht hf (ho.symm ▸ hx)).2 hkept),
      (howner u).trans ho⟩
  · obtain ⟨hold, ho, hserved⟩ := waits_before_faulted ht hf hw
    rw [hfault.graph, howner, hr.request, if_neg, h.requested u hold]
    rintro (hx | hx)
    · exact ho hx
    · refine hserved ?_
      rw [hr.woken]
      exact List.mem_map_of_mem (f := Prod.fst) hx
  · obtain ⟨hold, -, hserved⟩ := waits_before_faulted ht hf hw
    rw [howner, wantedResource_congr (deadlockPhase_faulted ht hf hserved)]
    exact h.wanted u hold
  · obtain ⟨hxp, h1⟩ := hr.asked x hx
    obtain ⟨u, hw, ho⟩ := h.waiting x.1 x.2 h1
    refine ⟨u, hw, ho, h.asked_eq hw (ho.symm ▸ h1), (faulted_other ht hf (ho.symm ▸ hxp)).1 ?_⟩
    refine hw.served ?_
    rw [ho, hr.woken]
    exact List.mem_map_of_mem (f := Prod.fst) hx

end WaitsAgree

/-! ## Runs -/

/-- The resource that thread `t` asked for last, before part `n` of the run from `k₀`. -/
def lastAsked (k₀ : Kernel) (t : ℕ) : ℕ → ℤ
  | 0 => 0
  | n + 1 =>
    if requestingAt (machineRun k₀ n) = some t then
      wantedResource (machineRun k₀ n).1 ((machineRun k₀ n).1.tcb t).ownerPid
    else lastAsked k₀ t n

/-- The grants made in this part of a tick, each a pid with its resource. -/
def grantsAt (m : Kernel × Phase) : List (ℤ × ℤ) :=
  match faultedAt m with
  | none => []
  | some p => resolveGrants m.1.graph (m.1.procs p).pid

theorem waitsAgree_kernelInit (k₀ : Kernel) (cfg : KernelConfig) {w : List ProcessSpec}
    (hw : ValidWorkload w) (asked : ℕ → ℤ) : WaitsAgree (kernelInit k₀ cfg w) asked := by
  obtain ⟨k₁, hl, -, -, -, -, hg⟩ := loaded_kernelInit k₀ cfg w
  have hgraph : (kernelInit k₀ cfg w).graph =
      { deadlockInit k₀.graph with priority := (kernelInit k₀ cfg w).graph.priority } := by
    conv_lhs => rw [hl]
    rw [← hg]
  obtain ⟨ha, hq⟩ := asking_deadlockInit k₀.graph
  have hnot : ∀ t, ¬(kernelInit k₀ cfg w).WaitsOnResource t := by
    intro t ht
    have hready := (loading_kernelInit k₀ cfg hw).ready t ht.lt
    rw [ht.blocked] at hready
    cases hready
  refine ⟨?_, ?_, fun p r hr => ?_, fun t ht => absurd ht (hnot t), fun t ht => absurd ht (hnot t)⟩
  · rw [hgraph]
    exact ⟨ha.units.congr rfl rfl rfl rfl, ha.waiters, ha.request_le, ha.one, ha.entries⟩
  · rw [hgraph]
    exact hq
  · rw [hgraph] at hr
    exact absurd hr zero_ne_one

theorem waitsAgree_machineStep {m : Kernel × Phase} {asked asked' : ℕ → ℤ}
    (h : WaitsAgree m.1 asked) (ht : MachineTables m) (hk : KeepsWaiter m)
    (hasked : ∀ t, asked' t = if requestingAt m = some t then
      wantedResource m.1 (m.1.tcb t).ownerPid else asked t) :
    WaitsAgree (machineStep m).1 asked' := by
  cases hf : faultedAt m with
  | some p =>
    have hnone := requestingAt_of_faulted hf
    have he : asked' = asked := by
      funext t
      rw [hasked, hnone, if_neg (Option.some_ne_none t).symm]
    rw [he]
    exact (h.faulted ht hf).1
  | none =>
    cases hr : requestingAt m with
    | none =>
      have he : asked' = asked := by
        funext t
        rw [hasked, hr, if_neg (Option.some_ne_none t).symm]
      rw [he]
      exact h.quiet ht hf hr hk
    | some t =>
      have he : asked' = Function.update asked t (wantedResource m.1 (m.1.tcb t).ownerPid) := by
        funext u
        rw [hasked, hr, Function.update_apply]
        by_cases hu : u = t
        · rw [hu, if_pos rfl, if_pos rfl]
        · rw [if_neg fun he => hu (Option.some.inj he).symm, if_neg hu]
      rw [he]
      exact h.request ht hf hr hk

theorem waitsAgree_machineRun (k₀ : Kernel) (cfg : KernelConfig) {w : List ProcessSpec}
    (hw : ValidWorkload w) {n : ℕ}
    (hk : ∀ i < n, KeepsWaiter (machineRun (kernelInit k₀ cfg w) i)) :
    WaitsAgree (machineRun (kernelInit k₀ cfg w) n).1
      fun t => lastAsked (kernelInit k₀ cfg w) t n := by
  induction n with
  | zero => exact waitsAgree_kernelInit k₀ cfg hw _
  | succ n ih =>
    rw [machineRun_succ]
    exact waitsAgree_machineStep (ih fun i hi => hk i (Nat.lt_succ_of_lt hi))
      (tables_machineRun k₀ cfg hw n) (hk n n.lt_succ_self) fun t => rfl

/-- In the first `n` parts of a run, in every state an active process asks for a resource exactly
when one of its threads is blocked for one, and every grant resumes a thread that asked for that
resource, exactly if every part keeps a waiter. -/
theorem requestsMatch_machineRun_iff (k₀ : Kernel) (cfg : KernelConfig) {w : List ProcessSpec}
    (hw : ValidWorkload w) {run : ℕ → Kernel × Phase} (hrun : run = machineRun (kernelInit k₀ cfg w))
    (n : ℕ) :
    ((∀ i ≤ n, RequestsMatch (run i).1) ∧
      ∀ i < n, ∀ x ∈ grantsAt (run i), ∃ t, (run i).1.WaitsOnResource t ∧
        ((run i).1.tcb t).ownerPid = x.1 ∧ lastAsked (kernelInit k₀ cfg w) t i = x.2 ∧
        ((run (i + 1)).1.tcb t).state = .ready) ↔
      ∀ i < n, KeepsWaiter (run i) := by
  subst hrun
  have hagree : ∀ {i}, (∀ j < i, KeepsWaiter (machineRun (kernelInit k₀ cfg w) j)) →
      WaitsAgree (machineRun (kernelInit k₀ cfg w) i).1
        fun t => lastAsked (kernelInit k₀ cfg w) t i := fun hk => waitsAgree_machineRun k₀ cfg hw hk
  constructor
  · rintro ⟨hmatch, -⟩ i
    induction i using Nat.strong_induction_on with
    | _ i ih =>
      intro hi
      refine (hagree fun j hj => ih j hj (hj.trans hi)).keepsWaiter (tables_machineRun k₀ cfg hw i) ?_
      rw [← machineRun_succ]
      exact hmatch (i + 1) hi
  · intro hk
    refine ⟨fun i hi => (hagree fun j hj => hk j (hj.trans_le hi)).requestsMatch, fun i hi x hx => ?_⟩
    unfold grantsAt at hx
    split at hx
    · exact absurd hx List.not_mem_nil
    · rw [machineRun_succ]
      exact ((hagree fun j hj => hk j (hj.trans hi)).faulted (tables_machineRun k₀ cfg hw i) ‹_›).2 x hx

/-- Two processes that want the same resource. -/
def queuedWorkload : List ProcessSpec :=
  [⟨2, [], .normal, [], 0, 0, [⟨4, [.acquireResource], 1⟩]⟩,
    ⟨3, [], .normal, [], 0, 0, [⟨6, [.acquireResource], 3⟩]⟩]

/-- Process 3 waits for the channel that process 2 holds. -/
theorem requestsMatch_machineRun_iff_queued :
    let run := machineRun (kernelInit .zero ⟨.rr, 0, true, false⟩ queuedWorkload)
    (run 32).1.graph.request 3 resourceCommChannel = 1 ∧ ∀ i ≤ 32, RequestsMatch (run i).1 := by
  intro run
  have hw : ValidWorkload queuedWorkload := by decide
  have hreq : (run 32).1.graph.request 3 resourceCommChannel = 1 := by decide +kernel
  have hcount : ∀ i < 32, (run i).1.threadCount = 2 := by decide +kernel
  have htaken : ∀ i < 32, takenIds (run i) = [] := by decide +kernel
  have hfree : ∀ i < 32, ∀ t ∈ requestingAt (run i), ∀ u < 2,
      ((run i).1.tcb u).state = .blocked →
        ((run i).1.tcb u).ownerPid ≠ ((run i).1.tcb t).ownerPid := by decide +kernel
  refine ⟨hreq, ((requestsMatch_machineRun_iff .zero ⟨.rr, 0, true, false⟩ hw rfl 32).mpr ?_).1⟩
  refine fun i hi => ⟨fun t ht _ => ?_, fun t hr _ _ u hu => ?_⟩
  · exact absurd ht (not_mem_resolvedBy (htaken i hi) t)
  · exact hfree i hi t hr u (hu.lt.trans_eq (hcount i hi)) hu.blocked

/-- Process 2 waits for the channel with the thread whose tid is the pid of the consumer. -/
def strayWorkload : List ProcessSpec :=
  [⟨3, [], .normal, [], 0, 0, [⟨30, [.acquireResource], 1⟩]⟩,
    ⟨2, [], .normal, [], 0, 0, [⟨5, [.acquireResource], 5⟩]⟩,
    ⟨5, [], .normal, [], 0, 0, [⟨50, [.consumeData], 5⟩]⟩,
    ⟨0, [], .normal, [], 0, 0, [⟨1, [.produceData], 5⟩]⟩]

/-- The item that is produced in tick 3 resumes it, and its process still asks for the channel. -/
theorem request_without_waiter :
    let run := machineRun (kernelInit .zero ⟨.rr, 20, true, false⟩ strayWorkload)
    ValidWorkload strayWorkload ∧ (run 64).2 = .top ∧ (run 64).1.currentTick = 4 ∧
      isActive (run 64).1.graph 2 = true ∧
      (run 64).1.graph.request 2 resourceCommChannel = 1 ∧
      (∀ t < (run 64).1.threadCount, ((run 64).1.tcb t).ownerPid = 2 →
        ((run 64).1.tcb t).state = .ready) ∧
      ¬RequestsMatch (run 64).1 := by
  intro run
  have hact : isActive (run 64).1.graph 2 = true := by decide +kernel
  have hreq : (run 64).1.graph.request 2 resourceCommChannel = 1 := by decide +kernel
  have hready : ∀ t < (run 64).1.threadCount, ((run 64).1.tcb t).ownerPid = 2 →
      ((run 64).1.tcb t).state = .ready := by decide +kernel
  refine ⟨by decide, by decide +kernel, by decide +kernel, hact,
    hreq, hready, fun hmatch => ?_⟩
  obtain ⟨t, ht, ho⟩ := (hmatch 2 hact).mp ⟨_, hreq⟩
  have hr := hready t ht.lt ho
  rw [ht.blocked] at hr
  cases hr

end FleetOS
