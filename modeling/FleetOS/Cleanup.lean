import FleetOS.KernelTables

/-!
# The end of a process

What `cleanup_process` does to the tables, the events, the buffer and the frames (`CleanedUp`),
to the graph, and to the threads : waiters that get what was released are queued, and the
threads of the process are marked done where they are (`ended_cleanupProcess`).

Its three callers come down to it : `retire` ends the running thread first, `detectDeadlock`
resolves the deadlock first, and `injectCrash` has the resources released by it.
-/

namespace FleetOS

open Scheduler (Frame Enqueue Ended)

/-- What an end of process `p` does outside the threads, the graph and the files. -/
structure CleanedUp (k k' : Kernel) (p : ℕ) : Prop where
  threadCount : k'.threadCount = k.threadCount
  procCount : k'.procCount = k.procCount
  currentTick : k'.currentTick = k.currentTick
  config : k'.config = k.config
  pid : ∀ q, (k'.procs q).pid = (k.procs q).pid
  new : ∀ q, (k'.procs q).state = .new → (k.procs q).state = .new
  terminated : ∀ q, (k'.procs q).state = .terminated ↔ (k.procs q).state = .terminated ∨ q = p
  pending : k'.pending = (cancelPending k (k.procs p).pid).pending
  pendingCount : k'.pendingCount = k.pendingCount
  sensorBuf : k'.sensorBuf =
    bufferReleaseMutex (bufferRemovePid k.sensorBuf (k.procs p).pid) (k.procs p).pid
  frames : k'.mem.frames = fun i => if k.mem.frames i = (k.procs p).pid then -1 else k.mem.frames i

/-- The threads of a process. -/
def Kernel.owned (k : Kernel) (pid : ℤ) : Set ℕ :=
  {u | u < k.threadCount ∧ (k.tcb u).ownerPid = pid}

/-- The part of `cleanup_process` before the resources are released. -/
def withdraw (k : Kernel) (pid : ℤ) : Kernel :=
  { cancelPending k pid with
    sensorBuf := bufferReleaseMutex (bufferRemovePid k.sensorBuf pid) pid }

/-- The part after that and before the threads end. -/
def terminate (k : Kernel) (p : ℕ) : Kernel :=
  let r := memFreeProcess k.mem (k.procs p)
  { k.setProc p fun _ => r.2 with mem := r.1 }.setProc p fun c =>
    { pcbSetState c .terminated with completionTick := k.currentTick }

theorem cleanupProcess_eq (k : Kernel) (p : ℕ) (release : Bool) :
    cleanupProcess k p release =
      endThreads (terminate (if release then releaseResources (withdraw k (k.procs p).pid)
        (k.procs p).pid else withdraw k (k.procs p).pid) p) (k.procs p).pid :=
  rfl

theorem terminate_procs_self (k : Kernel) (p : ℕ) :
    ((terminate k p).procs p).pid = (k.procs p).pid ∧
      ((terminate k p).procs p).state = .terminated := by
  simp [terminate, setProc_self, memFreeProcess, pcbSetState]

theorem terminate_procs_of_ne (k : Kernel) {p q : ℕ} (h : q ≠ p) :
    (terminate k p).procs q = k.procs q := by
  unfold terminate
  dsimp only
  rw [setProc_of_ne _ h]
  exact setProc_of_ne k h fun _ => (memFreeProcess k.mem (k.procs p)).2

/-- Nothing but the state of the processes, the scheduler, the graph and the files changes
while resources are released. -/
structure ReleaseStep (k k' : Kernel) : Prop where
  calm : Calm k k'
  pending : k'.pending = k.pending
  pendingCount : k'.pendingCount = k.pendingCount
  sensorBuf : k'.sensorBuf = k.sensorBuf
  mem : k'.mem = k.mem

theorem releaseStep_applyWoken (k : Kernel) (r : ResourceGraph × List ℤ) :
    ReleaseStep k (applyWoken k r) := by
  have h := steady_applyWoken k r
  have hg : Calm k { k with graph := r.1 } := .of_rest rfl
  exact ⟨hg.trans h.calm, h.pending, h.pendingCount, h.sensorBuf, h.mem⟩

theorem releaseStep_releaseResources (k : Kernel) (pid : ℤ) : ReleaseStep k (releaseResources k pid) := by
  have h := releaseStep_applyWoken k (wakeAllWaiters (deadlockCleanupProcess k.graph pid))
  exact ⟨h.calm.trans (.of_rest rfl), h.pending, h.pendingCount, h.sensorBuf, h.mem⟩

theorem cleanedUp_cleanupProcess (k : Kernel) (p : ℕ) (release : Bool) :
    CleanedUp k (cleanupProcess k p release) p := by
  set pid := (k.procs p).pid with hpid
  set k₁ := if release then releaseResources (withdraw k pid) pid else withdraw k pid with hk₁
  have h₁ : ReleaseStep (withdraw k pid) k₁ := by
    rw [hk₁]
    split_ifs
    · exact releaseStep_releaseResources _ pid
    · exact ⟨.refl _, rfl, rfl, rfl, rfl⟩
  have h₂ := steady_endThreads (terminate k₁ p) pid
  have hpid₁ : ∀ q, (k₁.procs q).pid = (k.procs q).pid := h₁.calm.pid
  have hself := terminate_procs_self k₁ p
  have hother : ∀ q, q ≠ p → (terminate k₁ p).procs q = k₁.procs q :=
    fun q hq => terminate_procs_of_ne k₁ hq
  rw [cleanupProcess_eq]
  refine ⟨h₂.threadCount.trans h₁.calm.threadCount, h₂.procCount.trans h₁.calm.procCount,
    h₂.currentTick.trans h₁.calm.currentTick, h₂.config.trans h₁.calm.config, fun q => ?_, fun q hq => ?_,
    fun q => ?_, h₂.pending.trans h₁.pending, h₂.pendingCount.trans h₁.pendingCount,
    h₂.sensorBuf.trans h₁.sensorBuf, ?_⟩
  · rw [h₂.pid, ← hpid₁]
    by_cases hq : q = p
    · rw [hq, hself.1]
    · rw [hother q hq]
  · have hq := (h₂.new q).mp hq
    by_cases hqp : q = p
    · rw [hqp, hself.2] at hq
      cases hq
    · rw [hother q hqp] at hq
      exact (h₁.calm.new q).mp hq
  · rw [h₂.terminated]
    by_cases hqp : q = p
    · rw [hqp]
      exact iff_of_true hself.2 (Or.inr rfl)
    · rw [hother q hqp, h₁.calm.terminated, or_iff_left hqp]
      rfl
  · rw [h₂.mem]
    have hmem : (terminate k₁ p).mem = (memFreeProcess k₁.mem (k₁.procs p)).1 := rfl
    rw [hmem, h₁.mem]
    simp only [memFreeProcess, hpid₁]
    rfl

theorem graph_cleanupProcess (k : Kernel) (p : ℕ) (release : Bool) :
    (cleanupProcess k p release).graph =
      if release then (wakeAllWaiters (deadlockCleanupProcess k.graph (k.procs p).pid)).1
      else k.graph := by
  rw [cleanupProcess_eq, (steady_endThreads _ _).graph]
  split_ifs
  · exact (steady_applyWoken (withdraw k (k.procs p).pid) _).graph
  · rfl

/-- The last part of `cleanup_process`. -/
theorem ended_terminate {k k₁ : Kernel} {touched : Set ℕ} (hn : k₁.threadCount = k.threadCount)
    (hf : Frame k.sched k₁.sched k.threadCount touched) (p : ℕ) (pid : ℤ) :
    Ended k₁.sched (endThreads (terminate k₁ p) pid).sched k.threadCount (k.owned pid) := by
  have hend := ended_endThreads (k := terminate k₁ p) (hn.symm ▸ hf.disciplined) pid
  have hset : {u | u < (terminate k₁ p).threadCount ∧ ((terminate k₁ p).tcb u).ownerPid = pid} =
      k.owned pid := by
    ext u
    have ho : ((terminate k₁ p).tcb u).ownerPid = (k.tcb u).ownerPid := hf.ownerPid u
    have ht : (terminate k₁ p).threadCount = k.threadCount := hn
    simp only [Set.mem_ofPred_eq, Kernel.owned, ho, ht]
  have ht : (terminate k₁ p).threadCount = k.threadCount := hn
  rwa [hset, ht] at hend

/-- What `cleanup_process` does to the threads when nothing is released. -/
theorem ended_cleanupProcess {k : Kernel} (h : k.sched.Disciplined k.threadCount) (p : ℕ) :
    Ended k.sched (cleanupProcess k p false).sched k.threadCount (k.owned (k.procs p).pid) := by
  rw [cleanupProcess_eq]
  have hn : (withdraw k (k.procs p).pid).threadCount = k.threadCount := rfl
  exact ended_terminate hn (.refl h) p _

/-- What it does to the threads when the resources are released. -/
theorem enqueue_cleanupProcess {k : Kernel} (h : k.sched.Disciplined k.threadCount) (p : ℕ) :
    ∃ s, Enqueue k.sched s k.threadCount
        (servedBy k (wakeAllWaiters (deadlockCleanupProcess k.graph (k.procs p).pid)).2) ∧
      Ended s (cleanupProcess k p true).sched k.threadCount (k.owned (k.procs p).pid) := by
  have hn : (releaseResources (withdraw k (k.procs p).pid) (k.procs p).pid).threadCount =
      k.threadCount := (releaseStep_releaseResources _ _).calm.threadCount
  have hq := enqueue_applyWoken (k := withdraw k (k.procs p).pid) h
    (wakeAllWaiters (deadlockCleanupProcess k.graph (k.procs p).pid))
  rw [cleanupProcess_eq]
  exact ⟨_, hq, ended_terminate hn hq.frame p _⟩

/-! ## The callers -/

theorem findProc_some {k : Kernel} {pid : ℤ} {p : ℕ} (h : k.findProc pid = some p) :
    p < k.procCount ∧ (k.procs p).pid = pid :=
  findProc_eq_some h

/-- A part of a tick in which process `p` ends. -/
theorem Tables.ended {k k' : Kernel} (h : Tables k) {p : ℕ} (hp : p < k.procCount)
    (hc : CleanedUp k k' p) {touched : Set ℕ}
    (hf : Frame k.sched k'.sched k.threadCount touched)
    (ht : ∀ t ∈ touched, t < k.threadCount →
      (k.tcb t).state ≠ .ready ∨ (k.tcb t).ownerPid = (k.procs p).pid) : Tables k' := by
  refine h.step hc.threadCount hc.procCount hc.pid hf fun q hq hnew =>
    ⟨hc.new q hnew, fun t hm htn he => ?_⟩
  rcases ht t hm htn with hr | ho
  · exact h.arrived htn hr hq (hc.new q hnew) he
  · have hqp : q = p := h.pids q hq p hp (he.symm.trans ho)
    have hterm := (hc.terminated q).mpr (Or.inr hqp)
    rw [hnew] at hterm
    cases hterm

theorem cleanedUp_of_releaseStep {k k₁ k' : Kernel} {p : ℕ} (h : ReleaseStep k k₁)
    (hc : CleanedUp k₁ k' p) : CleanedUp k k' p := by
  have hpid := h.calm.pid
  refine ⟨hc.threadCount.trans h.calm.threadCount, hc.procCount.trans h.calm.procCount,
    hc.currentTick.trans h.calm.currentTick, hc.config.trans h.calm.config,
    fun q => (hc.pid q).trans (hpid q), fun q hq => (h.calm.new q).mp (hc.new q hq), fun q => ?_, ?_,
    hc.pendingCount.trans h.pendingCount, ?_, ?_⟩
  · rw [hc.terminated, h.calm.terminated]
  · rw [hc.pending, hpid]
    simp only [cancelPending, h.pending, h.pendingCount]
  · rw [hc.sensorBuf, hpid, h.sensorBuf]
  · rw [hc.frames, hpid, h.mem]

/-- What a deadlock and a crash do alike, `p` being the process that ends. -/
structure Faulted (k k' : Kernel) (p : ℕ) : Prop where
  lt : p < k.procCount
  cleaned : CleanedUp k k' p
  graph : k'.graph = (deadlockResolve k.graph (k.procs p).pid).1
  threads : ∃ s, Enqueue k.sched s k.threadCount
      (servedBy k (deadlockResolve k.graph (k.procs p).pid).2) ∧
    Ended s k'.sched k.threadCount (k.owned (k.procs p).pid)

theorem deadlockResolve_eq {g : ResourceGraph} {pid : ℤ} (h : validPid pid) :
    deadlockResolve g pid = wakeAllWaiters (deadlockCleanupProcess g pid) :=
  if_neg (not_not.mpr h)

theorem deadlockVictim_lt {k : Kernel} {p : ℕ} (h : deadlockVictim k = some p) :
    p < k.procCount := by
  unfold deadlockVictim at h
  split_ifs at h
  split at h
  · cases h
  · exact (findProc_some h).1

theorem crashedProcess_some {k : Kernel} {p : ℕ} (h : crashedProcess k = some p) :
    ∃ t, k.runningThread = some t ∧ p < k.procCount ∧ (k.procs p).pid = (k.tcb t).ownerPid := by
  unfold crashedProcess at h
  split_ifs at h
  split at h
  · cases h
  · exact ⟨_, ‹_›, findProc_some h⟩

theorem faulted_detectDeadlock {k : Kernel} (h : Tables k) {p : ℕ}
    (hv : deadlockVictim k = some p) : Faulted k (detectDeadlock k) p := by
  have hp := deadlockVictim_lt hv
  set r := deadlockResolve k.graph (k.procs p).pid with hr
  have he : detectDeadlock k = cleanupProcess (applyWoken k r) p false := by
    simp only [detectDeadlock, hv, hr]
  have hrel := releaseStep_applyWoken k r
  have hq := enqueue_applyWoken h.disciplined r
  have hn := hrel.calm.threadCount
  have hpid := hrel.calm.pid p
  have hend := ended_cleanupProcess (hn.symm ▸ hq.frame.disciplined) p
  rw [hn] at hend
  have hown : (applyWoken k r).owned ((applyWoken k r).procs p).pid = k.owned (k.procs p).pid := by
    ext u
    have ho : ((applyWoken k r).tcb u).ownerPid = (k.tcb u).ownerPid := hq.frame.ownerPid u
    simp only [Kernel.owned, Set.mem_ofPred_eq, hn, ho, hpid]
  rw [hown] at hend
  refine ⟨hp, he ▸ cleanedUp_of_releaseStep hrel (cleanedUp_cleanupProcess _ p false), ?_, _, hq,
    he ▸ hend⟩
  rw [he, graph_cleanupProcess]
  exact (steady_applyWoken k r).graph

theorem faulted_injectCrash {k : Kernel} (h : Tables k) {p : ℕ}
    (hc : crashedProcess k = some p) : Faulted k (injectCrash k) p := by
  obtain ⟨t, -, hp, -⟩ := crashedProcess_some hc
  have he : injectCrash k = cleanupProcess k p true := by simp only [injectCrash, hc]
  have hr := deadlockResolve_eq (g := k.graph) (h.pid_range p hp)
  obtain ⟨s, hq, hend⟩ := enqueue_cleanupProcess h.disciplined p
  refine ⟨hp, he ▸ cleanedUp_cleanupProcess k p true, ?_, s, ?_, he ▸ hend⟩
  · rw [he, graph_cleanupProcess, hr]
    rfl
  · rw [hr]
    exact hq

theorem Faulted.tables {k k' : Kernel} {p : ℕ} (hf : Faulted k k' p) (h : Tables k) :
    Tables k' := by
  obtain ⟨s, hq, he⟩ := hf.threads
  refine h.ended hf.lt hf.cleaned ((hq.frame.mono Set.subset_union_left).trans
    (he.frame.mono Set.subset_union_right)) ?_
  rintro t (ht | ht) -
  · refine Or.inl fun hr => ?_
    rw [ht.2.2.1] at hr
    cases hr
  · exact Or.inr ht.2

/-- Everything the retirement of a thread that has just executed can do. -/
theorem retire_cases {k : Kernel} (h : Tables k) (t : ℕ) :
    (retire k t = k ∧ endingProcess k t = none) ∨
      (k.tcb t).state = .running ∧ ∃ s, Frame k.sched s k.threadCount {t} ∧ s.Parked t ∧
        (s.tcb t).state = .done ∧
        ((endingProcess k t = none ∧ retire k t = { k with sched := s }) ∨
          ∃ p, endingProcess k t = some p ∧ p < k.procCount ∧
            (k.procs p).pid = (k.tcb t).ownerPid ∧
            (∀ u ∈ k.owned (k.procs p).pid, (s.tcb u).state = .done) ∧
            CleanedUp k (retire k t) p ∧ (retire k t).graph = k.graph ∧
            Ended s (retire k t).sched k.threadCount (k.owned (k.procs p).pid)) := by
  by_cases hrun : (k.tcb t).state = .running ∧ (k.tcb t).burstRemaining ≤ 0
  · right
    obtain ⟨hf, hpark, hdone⟩ := Scheduler.frame_schedulerTerminate (t := t) h.disciplined
    refine ⟨hrun.1, schedulerTerminate k.sched t, hf, hpark, hdone, ?_⟩
    set k₁ : Kernel := { k with sched := schedulerTerminate k.sched t } with hk₁
    cases hend : endingProcess k t with
    | none =>
      left
      refine ⟨rfl, ?_⟩
      unfold retire
      rw [if_pos hrun, hend]
    | some p =>
      right
      have he : retire k t = cleanupProcess k₁ p false := by
        unfold retire
        rw [if_pos hrun, hend]
      have hsome := hend
      rw [endingProcess, if_pos hrun, Option.filter_eq_some_iff] at hsome
      obtain ⟨hfind, hlive⟩ := hsome
      obtain ⟨hp, hpid⟩ := findProc_some hfind
      have hended := ended_cleanupProcess (k := k₁) hf.disciplined p
      have hown : k₁.owned (k₁.procs p).pid = k.owned (k.procs p).pid := by
        ext u
        have ho : (k₁.tcb u).ownerPid = (k.tcb u).ownerPid := hf.ownerPid u
        simp only [Kernel.owned, Set.mem_ofPred_eq, ho]
        rfl
      rw [hown] at hended
      refine ⟨p, rfl, hp, hpid, fun u hu => ?_, ?_, ?_, ?_⟩
      · have hu' : u ∈ k₁.threads ∧ (k₁.tcb u).ownerPid = (k.procs p).pid :=
          ⟨mem_threads.mpr hu.1, (hf.ownerPid u).trans hu.2⟩
        simp only [processHasLiveThreads, Bool.not_eq_true', List.any_eq_false, decide_eq_true_eq,
          not_and, not_not] at hlive
        exact hlive u hu'.1 hu'.2
      · rw [he]
        have hc := cleanedUp_cleanupProcess k₁ p false
        exact ⟨hc.threadCount, hc.procCount, hc.currentTick, hc.config, hc.pid, hc.new,
          hc.terminated, hc.pending, hc.pendingCount, hc.sensorBuf, hc.frames⟩
      · rw [he, graph_cleanupProcess]
        rfl
      · rw [he]
        exact hended
  · left
    exact ⟨if_neg hrun, if_neg hrun⟩

end FleetOS
