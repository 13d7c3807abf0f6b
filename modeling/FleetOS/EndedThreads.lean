import FleetOS.KernelGraph

/-!
# The threads of a terminated process

`cleanup_process` marks the threads of its process done, but leaves those that are ready in
their queues, and `scheduler_next` gives the processor to whatever is queued. So a thread of a
deadlock victim or of a crashed process can run again. It cannot where no thread of such a
process is queued (`FaultsUnqueued`) : then no done thread is ever queued, and a terminated
process has no other threads (`ended_process_stays_ended`). A process that ends normally has
only done threads anyway.
-/

namespace FleetOS

open Scheduler (Frame Enqueue Ended)

/-- No thread of a process that falls victim to a deadlock or crashes is in a ready queue. -/
def FaultsUnqueued (m : Kernel × Phase) : Prop :=
  ∀ p, faultedAt m = some p → ∀ t ∈ m.1.owned (m.1.procs p).pid, t ∉ m.1.sched.queued

/-- No done thread is queued, and the threads of terminated processes are done. -/
structure DoneThreads (k : Kernel) : Prop where
  unqueued : ∀ t < k.threadCount, (k.tcb t).state = .done → t ∉ k.sched.queued
  terminated : ∀ p < k.procCount, (k.procs p).state = .terminated →
    ∀ t ∈ k.owned (k.procs p).pid, (k.tcb t).state = .done

namespace DoneThreads

variable {k k' : Kernel}

theorem parked (h : DoneThreads k) {t : ℕ} (ht : t < k.threadCount)
    (hd : (k.tcb t).state = .done) : k.sched.Parked t := by
  have hd' : (k.sched.tcb t).state = .done := hd
  refine ⟨h.unqueued t ht hd, fun hr => ?_⟩
  rw [hr] at hd'
  cases hd'

/-- A part of a tick that ends no process, and touches no done thread. -/
theorem of_frame (h : DoneThreads k) {touched : Set ℕ} (hn : k'.threadCount = k.threadCount)
    (hpc : k'.procCount = k.procCount) (hpid : ∀ p, (k'.procs p).pid = (k.procs p).pid)
    (hterm : ∀ p, (k'.procs p).state = .terminated → (k.procs p).state = .terminated)
    (hf : Frame k.sched k'.sched k.threadCount touched)
    (hlive : ∀ t ∈ touched, t < k.threadCount → (k.tcb t).state ≠ .done)
    (hdone : ∀ t ∈ touched, t < k.threadCount → (k'.tcb t).state = .done → t ∉ k'.sched.queued) :
    DoneThreads k' := by
  refine ⟨fun t ht hd => ?_, fun p hp hp' t ht => ?_⟩
  · rw [hn] at ht
    by_cases hm : t ∈ touched
    · exact hdone t hm ht hd
    · have hst : (k'.tcb t).state = (k.tcb t).state := hf.stopped t hm (Or.inr hd)
      exact (hf.parked t hm (h.parked ht (hst.symm.trans hd))).2.1
  · obtain ⟨htn, ho⟩ := ht
    have ho' : (k.tcb t).ownerPid = (k.procs p).pid :=
      (hf.ownerPid t).symm.trans (ho.trans (hpid p))
    rw [hn] at htn
    have hd := h.terminated p (hpc ▸ hp) (hterm p hp') t ⟨htn, ho'⟩
    have hm : t ∉ touched := fun hm => hlive t hm htn hd
    have hsame : k'.tcb t = k.tcb t := (hf.parked t hm (h.parked htn hd)).1
    rw [hsame, hd]

theorem of_calm (h : DoneThreads k) {touched : Set ℕ} (hc : Calm k k')
    (hf : Frame k.sched k'.sched k.threadCount touched)
    (hlive : ∀ t ∈ touched, t < k.threadCount → (k.tcb t).state ≠ .done)
    (hdone : ∀ t ∈ touched, t < k.threadCount → (k'.tcb t).state = .done → t ∉ k'.sched.queued) :
    DoneThreads k' :=
  h.of_frame hc.threadCount hc.procCount hc.pid (fun p => (hc.terminated p).mp) hf hlive hdone

theorem of_idle (h : DoneThreads k) (hc : Calm k k')
    (hf : Frame k.sched k'.sched k.threadCount ∅) : DoneThreads k' :=
  h.of_calm hc hf (fun t ht => absurd ht (Set.notMem_empty t))
    fun t ht => absurd ht (Set.notMem_empty t)

/-- Woken threads are ready. -/
theorem of_enqueue (h : DoneThreads k) {woken : Set ℕ} (hc : Calm k k')
    (hq : Enqueue k.sched k'.sched k.threadCount woken)
    (hlive : ∀ t ∈ woken, t < k.threadCount → (k.tcb t).state ≠ .done) : DoneThreads k' := by
  refine h.of_calm hc hq.frame hlive fun t ht _ hd => ?_
  have hr : (k'.tcb t).state = .ready := hq.ready t ht
  rw [hd] at hr
  cases hr

/-- The running thread blocks. -/
theorem of_blocked (h : DoneThreads k) {t : ℕ} {reason : BlockReason} (hc : Calm k k')
    (hrun : k.runningThread = some t) (hb : Blocked k k' t reason) : DoneThreads k' := by
  refine h.of_calm hc hb.frame (fun u hu _ hd => ?_) fun u hu _ hd => ?_
  · rw [Set.mem_singleton_iff.mp hu, (runningThread_some hrun).2] at hd
    cases hd
  · rw [Set.mem_singleton_iff.mp hu, hb.blocked] at hd
    cases hd

/-- A process that falls victim to a deadlock or crashes, with no thread queued. -/
theorem of_faulted (h : DoneThreads k) (ht : Tables k) (hrows : k.graph.Rows) {p : ℕ}
    (hf : Faulted k k' p) (hq : ∀ t ∈ k.owned (k.procs p).pid, t ∉ k.sched.queued) :
    DoneThreads k' := by
  obtain ⟨s, hs, he⟩ := hf.threads
  have hnot := ResourceGraph.not_mem_deadlockResolve hrows (ht.pid_range p hf.lt)
  -- a thread that is not one of the woken waiters is unqueued in `s` if it was before
  have hkeep : ∀ t < k.threadCount, t ∉ k.sched.queued →
      t ∉ servedBy k (deadlockResolve k.graph (k.procs p).pid).2 → t ∉ s.queued := by
    intro t htn htq hw
    by_cases hr : (k.sched.tcb t).state = .running
    · have hr' : (s.tcb t).state = .running := by rw [hs.same t hw, hr]
      exact (hs.frame.disciplined.running t htn hr').2
    · exact (hs.frame.parked t hw ⟨htq, hr⟩).2.1
  refine ⟨fun t htn hd => ?_, fun q hqn hterm t hto => ?_⟩
  · rw [hf.cleaned.threadCount] at htn
    rw [he.queued]
    by_cases hown : t ∈ k.owned (k.procs p).pid
    · exact hkeep t htn (hq t hown) fun hw => hnot (hown.2 ▸ hw.2.1)
    · have hsame : k'.sched.tcb t = s.tcb t := he.same t hown
      have hd' : (s.tcb t).state = .done := hsame ▸ hd
      have hw : t ∉ servedBy k (deadlockResolve k.graph (k.procs p).pid).2 := by
        intro hw
        have hr := hs.ready t hw
        rw [hd'] at hr
        cases hr
      have hdk : (k.tcb t).state = .done := by
        have hst := hs.same t hw
        rw [hst] at hd'
        exact hd'
      exact hkeep t htn (h.unqueued t htn hdk) hw
  · obtain ⟨htn, ho⟩ := hto
    rw [hf.cleaned.threadCount] at htn
    rw [hf.cleaned.pid] at ho
    have howner : (k'.tcb t).ownerPid = (k.tcb t).ownerPid :=
      (he.frame.ownerPid t).trans (hs.frame.ownerPid t)
    rw [howner] at ho
    by_cases hown : t ∈ k.owned (k.procs p).pid
    · exact he.done t hown
    · have hqp : q ≠ p := fun heq => hown ⟨htn, heq ▸ ho⟩
      have hterm' := ((hf.cleaned.terminated q).mp hterm).resolve_right hqp
      have hd := h.terminated q (hf.cleaned.procCount ▸ hqn) hterm' t ⟨htn, ho⟩
      have hw : t ∉ servedBy k (deadlockResolve k.graph (k.procs p).pid).2 := by
        intro hw
        have hb := hw.2.2.1
        rw [hd] at hb
        cases hb
      have hsame : k'.sched.tcb t = k.sched.tcb t := (he.same t hown).trans (hs.same t hw)
      exact (congrArg TCB.state hsame).trans hd

/-- A thread retires, and its process ends with it : all the other threads are done already. -/
theorem of_ended (h : DoneThreads k) {p t : ℕ} (hc : CleanedUp k k' p)
    (hrun : (k.tcb t).state = .running) {s : Scheduler} (hf : Frame k.sched s k.threadCount {t})
    (hpark : s.Parked t) (hall : ∀ u ∈ k.owned (k.procs p).pid, (s.tcb u).state = .done)
    (hend : Ended s k'.sched k.threadCount (k.owned (k.procs p).pid)) : DoneThreads k' := by
  have hs : ∀ u < k.threadCount, (s.tcb u).state = .done → u ∉ s.queued := by
    intro u hun hd
    by_cases hut : u = t
    · exact hut ▸ hpark.1
    · have hst := hf.stopped u hut (Or.inr hd)
      exact (hf.parked u hut (h.parked hun (hst.symm.trans hd))).2.1
  refine ⟨fun u hun hd => ?_, fun q hqn hterm u huo => ?_⟩
  · rw [hc.threadCount] at hun
    rw [hend.queued]
    by_cases hown : u ∈ k.owned (k.procs p).pid
    · exact hs u hun (hall u hown)
    · have hsame := hend.same u hown
      exact hs u hun (hsame ▸ hd)
  · obtain ⟨hun, ho⟩ := huo
    rw [hc.threadCount] at hun
    rw [hc.pid] at ho
    have howner : (k'.tcb u).ownerPid = (k.tcb u).ownerPid :=
      (hend.frame.ownerPid u).trans (hf.ownerPid u)
    rw [howner] at ho
    by_cases hown : u ∈ k.owned (k.procs p).pid
    · exact hend.done u hown
    · have hqp : q ≠ p := fun heq => hown ⟨hun, heq ▸ ho⟩
      have hterm' := ((hc.terminated q).mp hterm).resolve_right hqp
      have hd := h.terminated q (hc.procCount ▸ hqn) hterm' u ⟨hun, ho⟩
      have hut : u ≠ t := by
        rintro rfl
        rw [hrun] at hd
        cases hd
      have hsame : k'.sched.tcb u = k.sched.tcb u :=
        (hend.same u hown).trans (hf.parked u hut (h.parked hun hd)).1
      exact (congrArg TCB.state hsame).trans hd

end DoneThreads

theorem doneThreads_machineStep {m : Kernel × Phase} (hg : MachineGraph m) (h : DoneThreads m.1)
    (hq : FaultsUnqueued m) : DoneThreads (machineStep m).1 := by
  have ht := hg.tables.tables
  cases part_machineStep hg.tables with
  | idle _ hc hf => exact h.of_idle hc hf
  | arrived _ ha =>
    obtain ⟨woken, hen, hw⟩ := ha.threads
    refine h.of_frame ha.threadCount ha.procCount ha.pid (fun p => (ha.terminated p).mp) hen.frame
      (fun t htw _ => ?_) fun t htw _ hd => ?_
    · exact ne_of_eq_of_ne (hw t htw).2 (by decide)
    · exact absurd hd (ne_of_eq_of_ne (hen.ready t htw) (by decide))
  | woken _ hc s hen hw =>
    exact h.of_enqueue hc hen fun t hts _ => ne_of_eq_of_ne (hw t hts).blocked (by decide)
  | continued _ hc t hrun hx =>
    refine h.of_calm hc hx.frame ?_ ?_
    · rintro u (hu | hu) -
      · exact ne_of_eq_of_ne (Set.mem_singleton_iff.mp hu ▸ (runningThread_some hrun).2) (by decide)
      · exact ne_of_eq_of_ne hu.2 (by decide)
    · rintro u (hu | hu) - hd
      · exact absurd hd (ne_of_eq_of_ne (Set.mem_singleton_iff.mp hu ▸ hx.running) (by decide))
      · exact absurd hd (ne_of_eq_of_ne (hx.ready u hu) (by decide))
  | blocked _ hc t reason hrun _ hx => exact h.of_blocked hc hrun hx
  | retired _ hc t hrun hf hpark _ =>
    refine h.of_calm hc hf (fun u hu _ => ?_) fun u hu _ _ => ?_
    · exact ne_of_eq_of_ne (Set.mem_singleton_iff.mp hu ▸ hrun) (by decide)
    · exact Set.mem_singleton_iff.mp hu ▸ hpark.1
  | ended p _ _ hc _ t hrun _ s hf hpark hall hend => exact h.of_ended hc hrun hf hpark hall hend
  | faulted p he hf => exact h.of_faulted ht hg.rows hf (hq p he)
  | ticked _ hk =>
    rw [hk]
    exact ⟨h.unqueued, h.terminated⟩

/-! ## Runs -/

theorem doneThreads_kernelInit (k₀ : Kernel) (cfg : KernelConfig) {w : List ProcessSpec}
    (hw : ValidWorkload w) : DoneThreads (kernelInit k₀ cfg w) := by
  have hl := loading_kernelInit k₀ cfg hw
  refine ⟨fun t ht hd => ?_, fun p hp hterm => absurd hterm (hl.alive p (hl.procCount ▸ hp))⟩
  have hr := hl.ready t ht
  rw [hd] at hr
  cases hr

/-- Once a process is terminated, its threads are done for the rest of the run, if no process
that falls victim to a deadlock or crashes has a thread in a ready queue. -/
theorem ended_process_stays_ended (k₀ : Kernel) (cfg : KernelConfig) {w : List ProcessSpec}
    (hw : ValidWorkload w) {run : ℕ → Kernel × Phase} (hrun : run = machineRun (kernelInit k₀ cfg w))
    {n : ℕ} (hq : ∀ m < n, FaultsUnqueued (run m)) {i j p : ℕ} (hij : i ≤ j) (hjn : j ≤ n)
    (hp : p < (run i).1.procCount) (hterm : ((run i).1.procs p).state = .terminated) :
    ((run j).1.procs p).state = .terminated ∧
      ∀ t < (run j).1.threadCount, ((run j).1.tcb t).ownerPid = ((run j).1.procs p).pid →
        ((run j).1.tcb t).state = .done ∧ (run j).1.runningThread ≠ some t := by
  subst hrun
  have hstep : ∀ m, MachineGraph m ∧ DoneThreads m.1 → FaultsUnqueued m →
      MachineGraph (machineStep m) ∧ DoneThreads (machineStep m).1 :=
    fun m h hq => ⟨machineGraph_machineStep h.1, doneThreads_machineStep h.1 h.2 hq⟩
  have hinv : ∀ l ≤ n, MachineGraph (machineRun (kernelInit k₀ cfg w) l) ∧
      DoneThreads (machineRun (kernelInit k₀ cfg w) l).1 := fun l hl =>
    Machine.invariant hstep (fun m hm => hq m (hm.trans_le hl))
      ⟨machineGraph_kernelInit k₀ cfg hw, doneThreads_kernelInit k₀ cfg hw⟩
  -- a terminated process stays in the table and terminated
  have hkeep : ∀ l, i ≤ l → p < (machineRun (kernelInit k₀ cfg w) l).1.procCount ∧
      ((machineRun (kernelInit k₀ cfg w) l).1.procs p).state = .terminated := by
    intro l hl
    induction l, hl using Nat.le_induction with
    | base => exact ⟨hp, hterm⟩
    | succ l _ ih =>
      have hs := tableStep (tables_machineRun k₀ cfg hw l)
      rw [machineRun_succ]
      exact ⟨hs.procCount.symm ▸ ih.1, (hs.terminated p).mpr (Or.inl ih.2)⟩
  obtain ⟨hpj, htj⟩ := hkeep j hij
  refine ⟨htj, fun t ht ho => ?_⟩
  have hd := (hinv j hjn).2.terminated p hpj htj t ⟨ht, ho⟩
  refine ⟨hd, fun hr => ?_⟩
  have hrun := (runningThread_some hr).2
  rw [hd] at hrun
  cases hrun

/-- Each of the processes `0` and `1` has one thread, and they wait for each other. -/
def waitingWorkload : List ProcessSpec :=
  [⟨1, [], .high, [], 0, 0, [⟨0, [.acquireResource, .compute, .compute, .compute], 9⟩]⟩,
    ⟨0, [], .low, [], 0, 0, [⟨1, [.acquireResource], 9⟩]⟩]

/-- The victim of tick `10` is blocked and in no queue, and its thread stays done. -/
theorem ended_process_stays_ended_waiting :
    let run := machineRun (kernelInit .zero ⟨.rr, 0, true, false⟩ waitingWorkload)
    faultedAt (run 164) = some 1 ∧ ((run 165).1.procs 1).state = .terminated ∧
      ((run 200).1.tcb 1).state = .done ∧ (run 200).1.runningThread ≠ some 1 := by
  intro run
  have hw : ValidWorkload waitingWorkload := by decide
  have hqueues : ∀ m < 200, faultedAt (run m) = none ∨ (run m).1.sched.queued = 0 := by decide +kernel
  have hq : ∀ m < 200, FaultsUnqueued (run m) := by
    intro m hm p hp t _
    rcases hqueues m hm with hnone | hempty
    · rw [hnone] at hp
      cases hp
    · rw [hempty]
      exact Multiset.notMem_zero t
  have hvictim : faultedAt (run 164) = some 1 := by decide +kernel
  have hterm : ((run 165).1.procs 1).state = .terminated := by decide +kernel
  have hp : 1 < (run 165).1.procCount := by decide +kernel
  have hend := ended_process_stays_ended .zero ⟨.rr, 0, true, false⟩ hw (rfl : run = _) hq
    (by omega : 165 ≤ 200) le_rfl hp hterm
  have ht : 1 < (run 200).1.threadCount := by decide +kernel
  have ho : ((run 200).1.tcb 1).ownerPid = ((run 200).1.procs 1).pid := by decide +kernel
  exact ⟨hvictim, hterm, hend.2 1 ht ho⟩

/-- Processes `0` and `1` wait for each other, and at tick `10` thread `2` of process `0`, the
victim, is queued behind the thread of process `2`. -/
def victimWorkload : List ProcessSpec :=
  [⟨1, [], .high, [], 0, 0, [⟨0, [.acquireResource, .compute, .compute, .compute], 9⟩]⟩,
    ⟨0, [], .low, [], 0, 0, [⟨1, [.acquireResource], 9⟩, ⟨2, [.compute], 9⟩]⟩,
    ⟨2, [], .low, [], 0, 4, [⟨3, [.compute], 1⟩]⟩]

/-- The queued thread of the victim, which was done, executes in the next tick. -/
theorem ended_thread_runs_again :
    let run := machineRun (kernelInit .zero ⟨.rr, 0, true, false⟩ victimWorkload)
    ValidWorkload victimWorkload ∧
      (run 169).1.currentTick = 10 ∧ ((run 169).1.procs 1).state = .terminated ∧
      ((run 169).1.tcb 2).ownerPid = ((run 169).1.procs 1).pid ∧
      ((run 169).1.tcb 2).state = .done ∧ (run 182).1.currentTick = 11 ∧
      (run 182).2 = .execute ∧ ((run 182).1.tcb 2).state = .running ∧
      (run 182).1.runningThread = some 2 := by
  refine ⟨by decide, ?_⟩
  decide +kernel

end FleetOS
