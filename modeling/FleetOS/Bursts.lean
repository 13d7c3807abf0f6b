import FleetOS.BlockedThreads
import FleetOS.KernelGraph
import FleetOS.WakeRelations

/-!
# Bursts

Every command a thread completes costs one unit of its burst, and a thread whose burst is used up
ends at the end of step 5, if it is still running then. A thread that uses up its burst by a
command that blocks it, an I/O write or a request that is granted later, goes on to its next
command when it is dispatched again.

If that command needs nothing but the processor, nothing happens in it and the thread ends. So
where every thread's last blocking command is followed by such a command (`EndsWell`), bursts do
not become negative and a thread with no burst left does nothing more (`Budget`).
-/

namespace FleetOS

open Scheduler (Frame Enqueue Ended)

/-! ## Progress -/

/-- What a thread is to execute, how far it is and what it has left. -/
def TCB.progress (c : TCB) : List CommandType × ℤ × ℤ × ℤ × ℤ :=
  (c.commands, c.commandCount, c.localPc, c.commandTicksRemaining, c.burstRemaining)

section progress

variable {c c' : TCB}

theorem burstRemaining_of_progress (h : c'.progress = c.progress) :
    c'.burstRemaining = c.burstRemaining := by
  simp only [TCB.progress, Prod.mk.injEq] at h
  exact h.2.2.2.2

theorem threadCurrentCommand_of_progress (h : c'.progress = c.progress) :
    threadCurrentCommand c' = threadCurrentCommand c := by
  simp only [TCB.progress, Prod.mk.injEq] at h
  obtain ⟨hc, hn, hpc, -, -⟩ := h
  simp only [threadCurrentCommand, hc, hn, hpc]

theorem progress_advance (h : c'.progress = c.progress) :
    c'.advance.progress = c.advance.progress := by
  simp only [TCB.progress, Prod.mk.injEq] at h
  obtain ⟨hc, hn, hpc, -, hb⟩ := h
  simp only [TCB.progress, TCB.advance, TCB.nextPc, hc, hn, hpc, hb]

theorem burstRemaining_advance (c : TCB) : c.advance.burstRemaining = c.burstRemaining - 1 :=
  rfl

/-- A running thread executes one unit of its burst, if there is one. -/
theorem threadExecute_cases (hr : c.state = .running) :
    (c.burstRemaining ≤ 0 ∧ threadExecute c = c) ∨
      (threadExecute c).burstRemaining = c.burstRemaining - 1 := by
  unfold threadExecute
  split_ifs with h₁ h₂ h₃
  · exact absurd hr h₁
  · exact Or.inl ⟨h₂, rfl⟩
  · exact Or.inr rfl
  · exact Or.inr rfl

end progress

theorem progress_of_kept {s s' : Scheduler} {u : ℕ} (h : s'.kept u = s.kept u) :
    (s'.tcb u).progress = (s.tcb u).progress :=
  have he : (s'.kept u).progress = (s.kept u).progress := congrArg TCB.progress h
  he

/-- Every thread has made the same progress. -/
def SameProgress (k k' : Kernel) : Prop := ∀ t, (k'.tcb t).progress = (k.tcb t).progress

/-- Queueing a thread makes no progress. -/
theorem progress_schedulerAdd (s : Scheduler) (t u : ℕ) :
    ((schedulerAdd s t).tcb u).progress = (s.tcb u).progress := by
  obtain ⟨hother, hself⟩ := tcb_schedulerAdd s t
  by_cases hu : u = t
  · subst hu
    rcases hself with hs | ⟨l, hs⟩
    · rw [hs]
    · rw [hs]
      rfl
  · rw [hother u hu]

theorem threadRelation_sameProgress : ThreadRelation SameProgress where
  trans h h' t := (h' t).trans (h t)
  same h t := by rw [Kernel.tcb, h.sched]; rfl

theorem wakeRelation_sameProgress : WakeRelation SameProgress := by
  refine ⟨threadRelation_sameProgress, fun {k t} _ hb u => ?_⟩
  obtain ⟨hother, l, hself⟩ := tcb_unblockThread hb
  by_cases hu : u = t
  · rw [hu, hself]
    rfl
  · rw [hother u hu]

theorem sameProgress_done (k : Kernel) (t : ℕ) :
    SameProgress k (k.setTcb t fun c => { c with state := .done }) := by
  intro u
  rw [Kernel.tcb, Kernel.setTcb, Scheduler.setTcb_tcb]
  split_ifs with hu
  · rw [hu]
    rfl
  · rfl

theorem endRelation_sameProgress : EndRelation SameProgress :=
  ⟨threadRelation_sameProgress, sameProgress_done, fun _ _ _ => rfl⟩

/-! ### Served threads -/

/-- A thread whose progress changes was waiting for a resource and has been served. -/
def ServedProgress (k k' : Kernel) : Prop :=
  ∀ t, ((k'.tcb t).progress = (k.tcb t).progress ∧
      ((k'.tcb t).state = .blocked → (k.tcb t).state = .blocked ∧
        (k'.tcb t).waitReason = (k.tcb t).waitReason)) ∨
    ((k'.tcb t).progress = (k.tcb t).advance.progress ∧ (k.tcb t).state = .blocked ∧
      (k.tcb t).waitReason = .resourceWait ∧ (k'.tcb t).state ≠ .blocked)

theorem ServedProgress.trans {k k' k'' : Kernel} (h : ServedProgress k k')
    (h' : ServedProgress k' k'') : ServedProgress k k'' := by
  intro t
  rcases h t with ⟨hp, hb⟩ | ⟨hp, hb, hr, hn⟩
  · rcases h' t with ⟨hp', hb'⟩ | ⟨hp', hb', hr', hn'⟩
    · refine Or.inl ⟨hp'.trans hp, fun hs => ?_⟩
      obtain ⟨hs', hr'⟩ := hb' hs
      exact ⟨(hb hs').1, hr'.trans (hb hs').2⟩
    · obtain ⟨hs, hr⟩ := hb hb'
      exact Or.inr ⟨hp'.trans (progress_advance hp), hs, hr ▸ hr', hn'⟩
  · rcases h' t with ⟨hp', hb'⟩ | ⟨-, hb', -, -⟩
    · exact Or.inr ⟨hp'.trans hp, hb, hr, fun hs => hn (hb' hs).1⟩
    · exact absurd hb' hn

theorem serveRelation_servedProgress : ServeRelation ServedProgress where
  trans := ServedProgress.trans
  same h t := by
    rw [Kernel.tcb, h.sched]
    exact Or.inl ⟨rfl, fun hs => ⟨hs, rfl⟩⟩
  done k t u := by
    rw [Kernel.tcb, Kernel.setTcb, Scheduler.setTcb_tcb]
    split_ifs with hu
    · exact Or.inl ⟨hu ▸ rfl, fun hs => by cases hs⟩
    · exact Or.inl ⟨rfl, fun hs => ⟨hs, rfl⟩⟩
  terminate _ _ _ := Or.inl ⟨rfl, fun hs => ⟨hs, rfl⟩⟩
  serve {k pid t} _ hb hr u := by
    obtain ⟨hother, l, hself⟩ := tcb_unblockThread hb
    by_cases hu : u = t
    · subst hu
      have hs : (serveThread k pid u).tcb u = ((unblockThread k u).tcb u).advance :=
        Scheduler.setTcb_self _ _ _
      rw [hs, hself]
      exact Or.inr ⟨rfl, hb, hr, by simp [TCB.advance]⟩
    · have hs : (serveThread k pid t).tcb u = k.tcb u :=
        (Scheduler.setTcb_of_ne _ hu _).trans (hother u hu)
      rw [hs]
      exact Or.inl ⟨rfl, fun hs => ⟨hs, rfl⟩⟩

/-- The threads that the end of this process serves. -/
def servedAt (m : Kernel × Phase) : Set ℕ :=
  {t | ∃ p ∈ faultedAt m, t ∈ servedBy m.1 (deadlockResolve m.1.graph (m.1.procs p).pid).2}

/-- Waiters are served by the resources that are given back, before the threads of the process
end. -/
theorem served_of_enqueue {k k₁ k' : Kernel} {s : Set ℕ} (hq : Enqueue k.sched k₁.sched k.threadCount s)
    (hs : ServedProgress k k₁) (he : SameProgress k₁ k') (t : ℕ) :
    (k'.tcb t).progress = (k.tcb t).progress ∨
      t ∈ s ∧ (k'.tcb t).progress = (k.tcb t).advance.progress := by
  by_cases ht : t ∈ s
  · rcases hs t with ⟨hp, -⟩ | ⟨hp, -, -, -⟩
    · exact Or.inl ((he t).trans hp)
    · exact Or.inr ⟨ht, (he t).trans hp⟩
  · have hsame : k₁.tcb t = k.tcb t := hq.same t ht
    exact Or.inl ((he t).trans (by rw [hsame]))

theorem served_machineStep {m : Kernel × Phase} (h : Tables m.1) (t : ℕ)
    (hp : m.2 = .detect ∨ m.2 = .crash) :
    ((machineStep m).1.tcb t).progress = (m.1.tcb t).progress ∨
      t ∈ servedAt m ∧ ((machineStep m).1.tcb t).progress = (m.1.tcb t).advance.progress := by
  obtain ⟨k, ph⟩ := m
  rcases hp with hp | hp <;> cases hp
  · cases hv : deadlockVictim k with
    | none =>
      left
      simp only [machineStep, detectDeadlock, hv]
    | some p =>
      have he : (machineStep (k, .detect)).1 =
          cleanupProcess (applyWoken k (deadlockResolve k.graph (k.procs p).pid)) p false := by
        simp only [machineStep, detectDeadlock, hv]
      rw [he]
      exact (served_of_enqueue (enqueue_applyWoken h.disciplined _)
        (serveRelation_servedProgress.callback.applyWoken k _)
        (endRelation_sameProgress.cleanupProcess _ p) t).imp_right fun hs => ⟨⟨p, hv, hs.1⟩, hs.2⟩
  · cases hc : crashedProcess k with
    | none =>
      left
      simp only [machineStep, injectCrash, hc]
    | some p =>
      set k₁ := releaseResources (withdraw k (k.procs p).pid) (k.procs p).pid
      have he : (machineStep (k, .crash)).1 = endThreads (terminate k₁ p) (k.procs p).pid := by
        simp only [machineStep, injectCrash, hc]
        rfl
      have hw : ServedProgress k (withdraw k (k.procs p).pid) :=
        serveRelation_servedProgress.same (.of_procs rfl rfl rfl rfl rfl)
      have hpid := (crashedProcess_some hc).choose_spec.2.1
      have hq := enqueue_applyWoken (k := withdraw k (k.procs p).pid) h.disciplined
        (deadlockResolve k.graph (k.procs p).pid)
      rw [deadlockResolve_eq (h.pid_range p hpid)] at hq
      have hp : ServedProgress k k₁ := hw.trans (serveRelation_servedProgress.callback.releaseResources _ _)
      have hs := served_of_enqueue hq hp
        (endRelation_sameProgress.endThreads (terminate k₁ p) (k.procs p).pid) t
      rw [he]
      refine hs.imp_right fun hs => ⟨⟨p, hc, ?_⟩, hs.2⟩
      rw [deadlockResolve_eq (h.pid_range p hpid)]
      exact hs.1

/-! ### The command of a tick -/

/-- Waking leaves a thread that is not blocked as it is. -/
theorem wakeRelation_unblocked (t : ℕ) :
    WakeRelation fun k k' => (k.tcb t).state ≠ .blocked → k'.tcb t = k.tcb t where
  trans h h' hb := by
    have he := h hb
    exact (h' (he ▸ hb)).trans he
  same h _ := by
    rw [Kernel.tcb, h.sched]
    rfl
  unblock {k u} _ hu hb := by
    refine (tcb_unblockThread hu).1 t fun he => hb ?_
    rw [he]
    exact hu

theorem sameProgress_blockThread {k : Kernel} {n t : ℕ} (h : k.sched.Disciplined n)
    (hrun : k.sched.Yields t) (reason : BlockReason) : SameProgress k (blockThread k t reason) := by
  obtain ⟨w, -, -⟩ :=
    Scheduler.withdrawn_blockCurrent h.toSound hrun.1 (h.current t hrun.1).1 reason
  have hf := Scheduler.frame_schedulerNext (w.disciplined h)
  intro u
  have hnext : ((blockThread k t reason).tcb u).progress =
      ((Scheduler.blockCurrent (k.sched.setTcb t fun c => threadBlock c reason) t).tcb u).progress := by
    rw [Kernel.tcb, sched_blockThread hrun.2, Scheduler.schedulerBlock_current hrun.1]
    exact progress_of_kept (hf.kept u (Set.notMem_empty u))
  rw [hnext, Scheduler.blockCurrent_tcb, Scheduler.setTcb_tcb]
  by_cases hu : u = t
  · subst hu
    rw [if_pos rfl]
    rfl
  · rw [if_neg hu]
    rfl

/-- What the command of a tick does to the progress of its thread. -/
inductive Executed (k k' : Kernel) (t : ℕ) : Prop
  | executed (he : k'.tcb t = threadExecute (k.tcb t))
  | acquired (hc : threadCurrentCommand (k.tcb t) = .acquireResource)
      (hd : k.config.deadlockEnabled = true) (he : k'.tcb t = (k.tcb t).advance)
  | wrote (hc : threadCurrentCommand (k.tcb t) = .ioWrite)
      (hp : (k'.tcb t).progress = (k.tcb t).advance.progress)
  | refused (hp : (k'.tcb t).progress = (k.tcb t).progress)

theorem executed_executeCommand {k : Kernel} (h : Tables k) {t : ℕ} (hrun : k.sched.Yields t) :
    (∀ u, u ≠ t → ((executeCommand k t).tcb u).progress = (k.tcb u).progress) ∧
      Executed k (executeCommand k t) t := by
  have hx := commandEffect k t
  generalize executeCommand k t = k' at hx ⊢
  cases hx with
  | @ran k₁ hk _ =>
    have hprog := wakeRelation_sameProgress.wakeThreads (k₁.setTcb t threadExecute) (executeWakes k t)
    have hself : (k₁.setTcb t threadExecute).tcb t = threadExecute (k.tcb t) := hk.setTcb_self t _
    refine ⟨fun u hu => (hprog u).trans (congrArg TCB.progress (hk.setTcb_of_ne hu _)), .executed ?_⟩
    rw [← hself]
    refine (wakeRelation_unblocked t).wakeThreads (k₁.setTcb t threadExecute) _ ?_
    rw [hself, state_threadExecute]
    exact ne_of_eq_of_ne hrun.2 (by decide)
  | @refused k₁ hk _ _ _ =>
    have hprog := sameProgress_blockThread (hk.sched ▸ h.disciplined) (hk.sched ▸ hrun)
      (threadCurrentCommand (k.tcb t)).blockReason
    have hsame : ∀ u, k₁.tcb u = k.tcb u := fun u => congrArg (Scheduler.tcb · u) hk.sched
    exact ⟨fun u _ => (hprog u).trans (congrArg TCB.progress (hsame u)),
      .refused ((hprog t).trans (congrArg TCB.progress (hsame t)))⟩
  | acquired hk hc hd =>
    exact ⟨fun u hu => congrArg TCB.progress (hk.setTcb_of_ne hu _),
      .acquired hc hd (hk.setTcb_self t _)⟩
  | wrote hk _ hc pid path =>
    obtain ⟨hd, hyields⟩ := hk.advance h hrun
    have hprog := sameProgress_blockThread hd hyields .ioBlock
    rw [registerIo_rest]
    exact ⟨fun u hu => (hprog u).trans (congrArg TCB.progress (hk.setTcb_of_ne hu _)),
      .wrote hc ((hprog t).trans (congrArg TCB.progress (hk.setTcb_self t _)))⟩

/-! ### Every part -/

theorem sameProgress_schedulerTerminate (k : Kernel) (t : ℕ) :
    SameProgress k { k with sched := schedulerTerminate k.sched t } := by
  have hremove : ∀ s : Scheduler, (removeQueued s t).tcb = s.tcb := by
    intro s
    unfold removeQueued
    repeat' split
    all_goals rfl
  intro u
  simp only [Kernel.tcb, schedulerTerminate, Scheduler.setTcb_tcb, hremove]
  by_cases hu : u = t
  · subst hu
    rw [if_pos rfl]
    split_ifs <;> rfl
  · rw [if_neg hu]
    split_ifs <;> rfl

theorem sameProgress_of_frame {k k' : Kernel} {n : ℕ} (h : Frame k.sched k'.sched n ∅) :
    SameProgress k k' :=
  fun t => progress_of_kept (h.kept t (Set.notMem_empty t))

theorem sameProgress_triggerPageFault {k : Kernel} (h : Tables k) :
    SameProgress k (triggerPageFault k) := by
  rcases triggerPageFault_cases k with
    ⟨pcb, addr, he⟩ | he | ⟨t, p, pcb, addr, page, hrun, -, -, -, -, he⟩
  · rw [he]
    exact fun _ => rfl
  · rw [he]
    exact fun _ => rfl
  · set k₁ : Kernel := { k with mem := (memAccess k.mem pcb addr).mem }
    have hs := (calm_registerPageFault (blockThread k₁ t .pageFault) (k.procs p).pid page).2
    rw [← he] at hs
    intro u
    rw [Kernel.tcb, hs]
    exact sameProgress_blockThread (k := k₁) h.disciplined (runningThread_iff.mp hrun) .pageFault u

/-- What a part of a tick does to the progress of a thread. -/
inductive ProgressStep (m : Kernel × Phase) (t : ℕ) : Prop
  | same (hp : ((machineStep m).1.tcb t).progress = (m.1.tcb t).progress)
  | executed (hp : m.2 = .execute) (hrun : m.1.runningThread = some t)
      (hx : Executed m.1 (machineStep m).1 t)
  | served (ht : t ∈ servedAt m)
      (hp : ((machineStep m).1.tcb t).progress = (m.1.tcb t).advance.progress)

theorem progressStep {m : Kernel × Phase} (h : MachineTables m) (t : ℕ) : ProgressStep m t := by
  have hserved : m.2 = .detect ∨ m.2 = .crash → ProgressStep m t := by
    intro hp
    rcases served_machineStep h.tables t hp with hs | ⟨ht, hs⟩
    · exact .same hs
    · exact .served ht hs
  obtain ⟨k, ph⟩ := m
  have ht : Tables k := h.tables
  have hsame : SameProgress k (machineStep (k, ph)).1 → ProgressStep (k, ph) t := fun hs => .same (hs t)
  cases ph with
  | top =>
    refine hsame ?_
    simp only [machineStep]
    split_ifs <;> exact fun _ => rfl
  | arrivals =>
    exact hsame (threadRelation_sameProgress.checkArrivals (fun _ _ _ => rfl)
      (fun k u v => progress_schedulerAdd k.sched u v) k)
  | ioEvents => exact hsame (wakeRelation_sameProgress.foldl wakeRelation_sameProgress.completeIoEvent _ k)
  | pageFaults =>
    exact hsame (wakeRelation_sameProgress.foldl wakeRelation_sameProgress.completePageFault _ k)
  | compact => exact hsame fun _ => rfl
  | dispatch =>
    refine hsame ?_
    simp only [machineStep, ensureRunning]
    split_ifs
    · exact fun _ => rfl
    · have hf := Scheduler.frame_schedulerNext ht.disciplined
      exact fun u => progress_of_kept (hf.kept u (Set.notMem_empty u))
  | execute =>
    cases hrun : k.runningThread with
    | none =>
      refine hsame ?_
      simp only [machineStep, hrun]
      exact fun _ => rfl
    | some r =>
      have he : (machineStep (k, .execute)).1 = executeCommand k r := by
        simp only [machineStep, hrun]
      obtain ⟨hother, hx⟩ := executed_executeCommand ht (runningThread_iff.mp hrun)
      by_cases htr : t = r
      · subst htr
        exact .executed rfl hrun (he ▸ hx)
      · refine .same ?_
        rw [he]
        exact hother t htr
  | retire r => exact hsame (endRelation_sameProgress.retire (sameProgress_schedulerTerminate k r))
  | detect => exact hserved (Or.inl rfl)
  | crash => exact hserved (Or.inr rfl)
  | pageFault => exact hsame (sameProgress_triggerPageFault ht)
  | schedTick =>
    exact hsame (sameProgress_of_frame (Scheduler.frame_schedulerTick ht.disciplined k.currentTick))
  | waitTime => exact hsame fun _ => rfl
  | snapshot =>
    refine hsame fun u => ?_
    have hs : (machineStep (k, .snapshot)).1.sched = k.sched := sched_snapshotSync k
    rw [Kernel.tcb, hs]
    rfl
  | wakeWaiters => exact hsame (wakeRelation_sameProgress.wakeBufferWaiters k)
  | finish =>
    refine hsame ?_
    simp only [machineStep]
    split_ifs <;> exact fun _ => rfl
  | halted => exact hsame fun _ => rfl

/-! ## Threads that are over -/

/-- A thread that has retired : done, and in no queue. -/
def Over (s : Scheduler) (t : ℕ) : Prop := (s.tcb t).state = .done ∧ s.Parked t

theorem Over.of_frame {s s' : Scheduler} {t n : ℕ} {touched : Set ℕ} (ho : Over s t)
    (hf : Frame s s' n touched) (ht : t ∉ touched) : Over s' t := by
  obtain ⟨he, hp⟩ := hf.parked t ht ho.2
  exact ⟨he.symm ▸ ho.1, hp⟩

theorem Over.of_ended {s s' : Scheduler} {t n : ℕ} {ended : Set ℕ} (ho : Over s t)
    (hend : Ended s s' n ended) : Over s' t := by
  have hd : (s'.tcb t).state = .done := by
    by_cases ht : t ∈ ended
    · exact hend.done t ht
    · exact hend.same t ht ▸ ho.1
  exact ⟨hd, hend.queued ▸ ho.2.1, ne_of_eq_of_ne hd (by decide)⟩

theorem over_machineStep {m : Kernel × Phase} (h : MachineTables m) {t : ℕ}
    (ho : Over m.1.sched t) : Over (machineStep m).1.sched t := by
  have hne : ∀ {s : ThreadState}, s ≠ .done → (m.1.tcb t).state ≠ s := fun hs he => hs (he ▸ ho.1)
  cases part_machineStep h with
  | idle _ _ hf => exact ho.of_frame hf (Set.notMem_empty t)
  | arrived _ ha =>
    obtain ⟨woken, hq, hw⟩ := ha.threads
    exact ho.of_frame hq.frame fun ht => hne (by decide) (hw t ht).2
  | woken _ _ s hq hw => exact ho.of_frame hq.frame fun ht => hne (by decide) (hw t ht).blocked
  | continued _ _ r hrun hx =>
    refine ho.of_frame hx.frame ?_
    rintro (ht | ht)
    · exact hne (by decide) (Set.mem_singleton_iff.mp ht ▸ (runningThread_some hrun).2)
    · exact hne (by decide) ht.2
  | blocked _ _ r reason hrun _ hx =>
    exact ho.of_frame hx.frame fun ht =>
      hne (by decide) (Set.mem_singleton_iff.mp ht ▸ (runningThread_some hrun).2)
  | retired _ _ r hrun hf _ _ =>
    exact ho.of_frame hf fun ht => hne (by decide) (Set.mem_singleton_iff.mp ht ▸ hrun)
  | ended p _ _ _ _ r hrun _ s hf _ _ hend =>
    exact (ho.of_frame hf fun ht => hne (by decide) (Set.mem_singleton_iff.mp ht ▸ hrun)).of_ended hend
  | faulted p _ hf =>
    obtain ⟨s, hq, hend⟩ := hf.threads
    exact (ho.of_frame hq.frame fun ht => hne (by decide) ht.2.2.1).of_ended hend
  | ticked _ hk =>
    rw [hk]
    exact ho

theorem over_retire {k : Kernel} (h : Tables k) {t : ℕ}
    (hrun : (k.tcb t).state = .running ∧ (k.tcb t).burstRemaining ≤ 0) :
    Over (retire k t).sched t := by
  obtain ⟨hf, hpark, hdone⟩ := Scheduler.frame_schedulerTerminate (t := t) h.disciplined
  set k₁ : Kernel := { k with sched := schedulerTerminate k.sched t }
  have ho : Over k₁.sched t := ⟨hdone, hpark⟩
  unfold retire
  rw [if_pos hrun]
  cases endingProcess k t with
  | none => exact ho
  | some p => exact ho.of_ended (ended_cleanupProcess (k := k₁) hf.disciplined p)

/-! ## Bursts that end well -/

/-- A command that takes nothing but processor time. -/
def CommandType.Idle (c : CommandType) (deadlockEnabled : Bool) : Prop :=
  c = .compute ∨ c = .acquireResource ∧ deadlockEnabled = false

instance (c : CommandType) (deadlockEnabled : Bool) : Decidable (c.Idle deadlockEnabled) :=
  inferInstanceAs (Decidable (_ ∨ _ ∧ _))

/-- The thread that step 6 blocks by a page fault. -/
def faultingThread (k : Kernel) : Option ℕ :=
  if k.config.deadlockEnabled ∨ k.currentTick ≤ 0 ∨ k.currentTick % pageFaultInterval ≠ 0 then none
  else k.runningThread.filter fun t =>
    (k.findProc (k.tcb t).ownerPid).any fun p =>
      memGetPageCount (k.procs p) < maxPages ∧
        (memAccess k.mem (k.procs p) (memGetPageCount (k.procs p) * pageSize)).ret < 0

/-- The last unit of a burst that a blocking command uses up is followed by an idle command, and
no thread without a burst is stopped by a page fault. -/
structure EndsWell (m : Kernel × Phase) : Prop where
  wrote : m.2 = .execute → ∀ t ∈ m.1.runningThread, threadCurrentCommand (m.1.tcb t) = .ioWrite →
    (m.1.tcb t).burstRemaining = 1 →
      (threadCurrentCommand (m.1.tcb t).advance).Idle m.1.config.deadlockEnabled
  served : ∀ t ∈ servedAt m, (m.1.tcb t).burstRemaining = 1 →
    (threadCurrentCommand (m.1.tcb t).advance).Idle m.1.config.deadlockEnabled
  faulted : m.2 = .pageFault → ∀ t ∈ faultingThread m.1, (m.1.tcb t).burstRemaining ≠ 0

/-- What is left of the bursts. A thread with nothing left is at an idle command, or it is about
to retire or has retired. -/
structure Budget (m : Kernel × Phase) : Prop where
  nonneg : ∀ t < m.1.threadCount, 0 ≤ (m.1.tcb t).burstRemaining
  spent : ∀ t < m.1.threadCount, (m.1.tcb t).burstRemaining = 0 →
    (threadCurrentCommand (m.1.tcb t)).Idle m.1.config.deadlockEnabled ∨ Over m.1.sched t ∨
      m.2 = .retire t ∧ (m.1.tcb t).state = .running
  waiting : ∀ t < m.1.threadCount, (m.1.tcb t).state = .blocked →
    (m.1.tcb t).waitReason = .resourceWait → (m.1.tcb t).burstRemaining ≠ 0

/-- A thread that runs with nothing left is at an idle command when it executes. -/
theorem Budget.idle {m : Kernel × Phase} (h : Budget m) (ht : Tables m.1) (hp : m.2 = .execute)
    {t : ℕ} (hrun : m.1.runningThread = some t) (hb : (m.1.tcb t).burstRemaining = 0) :
    (threadCurrentCommand (m.1.tcb t)).Idle m.1.config.deadlockEnabled := by
  rcases h.spent t (ht.running_lt hrun) hb with hi | ho | ⟨hr, -⟩
  · exact hi
  · exact absurd (runningThread_some hrun).2 (ne_of_eq_of_ne ho.1 (by decide))
  · rw [hp] at hr
    cases hr

/-- An idle command changes nothing when nothing is left of the burst. -/
theorem executeCommand_of_idle {k : Kernel} {t : ℕ}
    (hi : (threadCurrentCommand (k.tcb t)).Idle k.config.deadlockEnabled)
    (hb : (k.tcb t).burstRemaining ≤ 0) : executeCommand k t = k := by
  have hexec : k.setTcb t threadExecute = k := by
    have he : threadExecute (k.tcb t) = k.tcb t := by
      unfold threadExecute
      split_ifs <;> rfl
    have hs : k.sched.setTcb t threadExecute = k.sched := by
      have hu : Function.update k.sched.tcb t (threadExecute (k.sched.tcb t)) = k.sched.tcb := by
        rw [show threadExecute (k.sched.tcb t) = k.sched.tcb t from he, Function.update_eq_self]
      rw [Scheduler.setTcb, hu]
    rw [Kernel.setTcb, hs]
  rcases hi with hc | ⟨hc, hd⟩
  · simp only [executeCommand, hc, hexec]
  · simp only [executeCommand, hc, executeAcquire, hd, Bool.false_eq_true, if_false, hexec]

theorem Budget.executes_nothing {m : Kernel × Phase} (h : Budget m) (ht : Tables m.1)
    (hp : m.2 = .execute) {t : ℕ} (hrun : m.1.runningThread = some t)
    (hb : (m.1.tcb t).burstRemaining = 0) : (machineStep m).1 = m.1 := by
  have hi := h.idle ht hp hrun hb
  obtain ⟨k, ph⟩ := m
  obtain rfl : ph = .execute := hp
  have hrun : k.runningThread = some t := hrun
  simp only [machineStep, hrun]
  exact executeCommand_of_idle hi hb.le

theorem sched_triggerPageFault {k : Kernel} (h : faultingThread k = none) :
    (triggerPageFault k).sched = k.sched := by
  unfold triggerPageFault
  split_ifs with hd ht
  · rfl
  · rfl
  · rw [faultingThread, if_neg fun hc => hc.elim hd ht] at h
    cases hrun : k.runningThread with
    | none => rfl
    | some t =>
      cases hp : k.findProc (k.tcb t).ownerPid with
      | none => simp only [hp]
      | some p =>
        simp only [hp]
        split_ifs with hmax hret
        · rfl
        · rw [hrun, Option.filter_some, hp, Option.any_some, if_pos] at h
          · cases h
          · exact decide_eq_true ⟨not_le.mp hmax, hret⟩
        · rfl

/-- A thread that has nothing left does not block. -/
theorem Budget.not_blocked {m : Kernel × Phase} (h : Budget m) (hm : MachineTables m)
    (hw : EndsWell m) {t : ℕ} (hb : (m.1.tcb t).burstRemaining = 0)
    (hs : (m.1.tcb t).state ≠ .blocked) : ((machineStep m).1.tcb t).state ≠ .blocked := by
  intro hs'
  rcases blocked_before hm hs' with he | ⟨hrun, hf⟩
  · exact hs (he ▸ hs')
  · obtain ⟨k, ph⟩ := m
    cases ph with
    | execute =>
      have he : (machineStep (k, .execute)).1 = executeCommand k t := by
        simp only [machineStep, hrun]
      rw [he, executeCommand_of_idle (h.idle hm.tables rfl hrun hb) hb.le] at hs'
      exact hs hs'
    | pageFault =>
      cases hx : faultingThread k with
      | none =>
        have he : (machineStep (k, .pageFault)).1.sched = k.sched := sched_triggerPageFault hx
        rw [Kernel.tcb, he] at hs'
        exact hs hs'
      | some r =>
        have hr : k.runningThread = some r := by
          unfold faultingThread at hx
          split_ifs at hx
          exact (Option.filter_eq_some_iff.mp hx).1
        obtain rfl : r = t := Option.some.inj (hr.symm.trans hrun)
        exact hw.faulted rfl r hx hb
    | _ => exact hf

/-- A part of a tick leaves a thread the burst it had, or one unit less. -/
theorem Budget.cases {m : Kernel × Phase} (h : Budget m) (hm : MachineTables m) (hw : EndsWell m)
    {t : ℕ} (ht : t < m.1.threadCount) :
    ((machineStep m).1.tcb t).progress = (m.1.tcb t).progress ∨
      0 < (m.1.tcb t).burstRemaining ∧
        ((machineStep m).1.tcb t).burstRemaining = (m.1.tcb t).burstRemaining - 1 ∧
        ((machineStep m).2 = .retire t ∧ ((machineStep m).1.tcb t).state = .running ∨
          ((machineStep m).1.tcb t).progress = (m.1.tcb t).advance.progress ∧
          ((m.1.tcb t).burstRemaining = 1 →
            (threadCurrentCommand (m.1.tcb t).advance).Idle m.1.config.deadlockEnabled) ∧
          (threadCurrentCommand (m.1.tcb t) = .ioWrite ∨ (m.1.tcb t).state = .blocked)) := by
  have hpos : (m.1.tcb t).burstRemaining ≠ 0 → 0 < (m.1.tcb t).burstRemaining := fun hne =>
    lt_of_le_of_ne (h.nonneg t ht) hne.symm
  cases progressStep hm t with
  | same hp => exact Or.inl hp
  | executed hp hrun hx =>
    obtain ⟨k, ph⟩ := m
    obtain rfl : ph = .execute := hp
    have he : machineStep (k, .execute) = (executeCommand k t, .retire t) := by
      simp only [machineStep, hrun]
    rw [he] at hx ⊢
    have hstate := (runningThread_some hrun).2
    by_cases hb : (k.tcb t).burstRemaining = 0
    · left
      rw [executeCommand_of_idle (h.idle hm.tables rfl hrun hb) hb.le]
    · cases hx with
      | executed he =>
        rcases threadExecute_cases hstate with ⟨hle, -⟩ | hx
        · exact absurd hle (not_le.mpr (hpos hb))
        · refine Or.inr ⟨hpos hb, he ▸ hx, Or.inl ⟨rfl, ?_⟩⟩
          rw [he, state_threadExecute]
          exact hstate
      | acquired _ _ he =>
        refine Or.inr ⟨hpos hb, ?_, Or.inl ⟨rfl, ?_⟩⟩
        · rw [he, burstRemaining_advance]
        · rw [he]
          exact hstate
      | wrote hc hp =>
        exact Or.inr ⟨hpos hb, burstRemaining_of_progress hp,
          Or.inr ⟨hp, hw.wrote rfl t hrun hc, Or.inl hc⟩⟩
      | refused hp => exact Or.inl hp
  | served hs hp =>
    have hidle := hw.served t hs
    obtain ⟨-, -, -, -, hb, hr⟩ := hs
    exact Or.inr ⟨hpos (h.waiting t ht hb hr), burstRemaining_of_progress hp,
      Or.inr ⟨hp, hidle, Or.inr hb⟩⟩

theorem Budget.spent_machineStep {m : Kernel × Phase} (h : Budget m) (hm : MachineTables m)
    (hw : EndsWell m) {t : ℕ} (ht : t < m.1.threadCount)
    (hb : ((machineStep m).1.tcb t).burstRemaining = 0) :
    (threadCurrentCommand ((machineStep m).1.tcb t)).Idle m.1.config.deadlockEnabled ∨
      Over (machineStep m).1.sched t ∨
      (machineStep m).2 = .retire t ∧ ((machineStep m).1.tcb t).state = .running := by
  rcases h.cases hm hw ht with hp | ⟨hpos, hb', hr | ⟨hp, hidle, -⟩⟩
  · rw [burstRemaining_of_progress hp] at hb
    rcases h.spent t ht hb with hi | ho | ⟨hr, hrun⟩
    · exact Or.inl ((threadCurrentCommand_of_progress hp).symm ▸ hi)
    · exact Or.inr (Or.inl (over_machineStep hm ho))
    · obtain ⟨k, ph⟩ := m
      obtain rfl : ph = .retire t := hr
      exact Or.inr (Or.inl (over_retire hm.tables ⟨hrun, hb.le⟩))
  · exact Or.inr (Or.inr hr)
  · rw [threadCurrentCommand_of_progress hp]
    exact Or.inl (hidle (by omega))

theorem budget_machineStep {m : Kernel × Phase} (h : Budget m) (hm : MachineTables m)
    (hw : EndsWell m) : Budget (machineStep m) := by
  have htab := tableStep hm
  refine ⟨fun t ht => ?_, fun t ht hb => ?_, fun t ht hblocked hreason => ?_⟩ <;>
    rw [htab.threadCount] at ht
  · rcases h.cases hm hw ht with hp | ⟨hpos, hb, -⟩
    · rw [burstRemaining_of_progress hp]
      exact h.nonneg t ht
    · omega
  · rw [htab.config]
    exact h.spent_machineStep hm hw ht hb
  · rcases blocked_before hm hblocked with he | ⟨hrun, hf⟩
    · rw [he] at hblocked hreason ⊢
      exact h.waiting t ht hblocked hreason
    · have hstate := (runningThread_some hrun).2
      have hnb : (m.1.tcb t).state ≠ .blocked := ne_of_eq_of_ne hstate (by decide)
      have hne : (m.1.tcb t).burstRemaining ≠ 0 := fun hb => h.not_blocked hm hw hb hnb hblocked
      rcases h.cases hm hw ht with hp | ⟨-, -, ⟨-, hr⟩ | ⟨-, -, hc | hb⟩⟩
      · rw [burstRemaining_of_progress hp]
        exact hne
      · exact absurd hblocked (ne_of_eq_of_ne hr (by decide))
      · -- a thread that writes does not block for a resource
        rw [hreason] at hf
        obtain ⟨k, ph⟩ := m
        cases ph with
        | execute =>
          have hc : threadCurrentCommand (k.tcb t) = .ioWrite := hc
          rw [BlocksFor, hc] at hf
          exact absurd hf.2 (by decide)
        | pageFault => cases hf
        | _ => exact hf.elim
      · exact absurd hb hnb

/-! ## Runs -/

/-- In how many of the first `n` parts of a run a thread has completed a command. -/
def completedCommands (run : ℕ → Kernel × Phase) (t n : ℕ) : ℕ :=
  ((Finset.range n).filter fun i =>
    ((run (i + 1)).1.tcb t).progress ≠ ((run i).1.tcb t).progress).card

theorem completedCommands_succ (run : ℕ → Kernel × Phase) (t n : ℕ) :
    completedCommands run t (n + 1) = completedCommands run t n +
      if ((run (n + 1)).1.tcb t).progress ≠ ((run n).1.tcb t).progress then 1 else 0 := by
  unfold completedCommands
  rw [Finset.range_add_one, Finset.filter_insert]
  split_ifs
  · exact Finset.card_insert_of_notMem fun hn => by simp at hn
  · rfl

/-- Every thread of the workload has something to do. -/
def PositiveBursts (w : List ProcessSpec) : Prop := ∀ p ∈ w, ∀ s ∈ p.threads, 0 < s.burst

instance (w : List ProcessSpec) : Decidable (PositiveBursts w) :=
  inferInstanceAs (Decidable (∀ p ∈ w, ∀ s ∈ p.threads, 0 < s.burst))

/-- The threads made so far have something to do. -/
def Busy (k : Kernel) : Prop := ∀ t < k.threadCount, 0 < (k.tcb t).burstRemaining

theorem Busy.bootThread {k : Kernel} (h : Busy k) (p : ℕ) {spec : ThreadSpec} (hs : 0 < spec.burst) :
    Busy (bootThread p k spec) := by
  intro t ht
  rw [Kernel.tcb, sched_bootThread, Scheduler.setTcb_tcb]
  split_ifs with he
  · exact hs
  · exact h t (lt_of_le_of_ne (Nat.lt_succ_iff.mp ht) he)

theorem Busy.schedulerAdd {k : Kernel} (h : Busy k) (t : ℕ) :
    Busy { k with sched := schedulerAdd k.sched t } := by
  intro u hu
  rw [Kernel.tcb, burstRemaining_of_progress (progress_schedulerAdd k.sched t u)]
  exact h u hu

theorem Busy.bootProcess {k : Kernel} (h : Busy k) {spec : ProcessSpec × ℕ}
    (hs : ∀ s ∈ spec.1.threads, 0 < s.burst) : Busy (bootProcess k spec) := by
  unfold FleetOS.bootProcess
  dsimp only
  set k₁ := bootPage spec.2 (bootPage spec.2 _ 0) 1
  have h₁ : Busy k₁ := h
  have h₂ : Busy (spec.1.threads.foldl (FleetOS.bootThread spec.2) k₁) :=
    List.foldlRecOn _ _ h₁ fun k hk s hmem => hk.bootThread spec.2 (hs s hmem)
  split_ifs
  · exact List.foldlRecOn (motive := Busy) _ _ h₂ fun k hk t _ => hk.schedulerAdd t
  · exact h₂

theorem burst_kernelInit (k₀ : Kernel) (cfg : KernelConfig) {w : List ProcessSpec}
    (hpos : PositiveBursts w) : Busy (kernelInit k₀ cfg w) := by
  unfold kernelInit
  refine List.foldlRecOn (motive := Busy) _ _ (fun t ht => absurd ht t.not_lt_zero) fun k hk spec hmem => ?_
  exact hk.bootProcess (hpos spec.1 (List.fst_mem_of_mem_zipIdx hmem))

theorem budget_kernelInit (k₀ : Kernel) (cfg : KernelConfig) {w : List ProcessSpec}
    (hpos : PositiveBursts w) : Budget (kernelInit k₀ cfg w, .top) := by
  have hb := burst_kernelInit k₀ cfg hpos
  exact ⟨fun t ht => (hb t ht).le, fun t ht h0 => absurd h0 (hb t ht).ne',
    fun t ht _ _ => (hb t ht).ne'⟩

/-- A thread completes at most as many commands as its burst, and with nothing left it executes
nothing more and does not block. -/
theorem burst_not_overdrawn (k₀ : Kernel) (cfg : KernelConfig) {w : List ProcessSpec}
    (hw : ValidWorkload w) (hpos : PositiveBursts w) {run : ℕ → Kernel × Phase}
    (hrun : run = machineRun (kernelInit k₀ cfg w)) {n : ℕ} (hends : ∀ m < n, EndsWell (run m)) :
    ∀ t < (run 0).1.threadCount,
      0 ≤ ((run n).1.tcb t).burstRemaining ∧
        (completedCommands run t n : ℤ) + ((run n).1.tcb t).burstRemaining =
          ((run 0).1.tcb t).burstRemaining ∧
        ∀ i < n, ((run i).1.tcb t).burstRemaining = 0 →
          ((run i).2 = .execute → (run i).1.runningThread = some t → (run (i + 1)).1 = (run i).1) ∧
            (((run i).1.tcb t).state ≠ .blocked → ((run (i + 1)).1.tcb t).state ≠ .blocked) := by
  subst hrun
  have hm := tables_machineRun k₀ cfg hw
  have hcount : ∀ i, (machineRun (kernelInit k₀ cfg w) i).1.threadCount =
      (machineRun (kernelInit k₀ cfg w) 0).1.threadCount := by
    intro i
    induction i with
    | zero => rfl
    | succ i ih => rw [machineRun_succ, (tableStep (hm i)).threadCount, ih]
  have hbudget : ∀ i ≤ n, Budget (machineRun (kernelInit k₀ cfg w) i) := by
    intro i
    induction i with
    | zero => exact fun _ => budget_kernelInit k₀ cfg hpos
    | succ i ih =>
      intro hi
      rw [machineRun_succ]
      exact budget_machineStep (ih (by omega)) (hm i) (hends i (by omega))
  intro t ht
  refine ⟨(hbudget n le_rfl).nonneg t (hcount n ▸ ht), ?_, fun i hi hb => ⟨fun hp hr => ?_, fun hs => ?_⟩⟩
  · have hsum : ∀ i ≤ n, (completedCommands (machineRun (kernelInit k₀ cfg w)) t i : ℤ) +
        ((machineRun (kernelInit k₀ cfg w) i).1.tcb t).burstRemaining =
          ((machineRun (kernelInit k₀ cfg w) 0).1.tcb t).burstRemaining := by
      intro i
      induction i with
      | zero => exact fun _ => by simp [completedCommands]
      | succ i ih =>
        intro hi
        have ih := ih (by omega)
        rw [completedCommands_succ, machineRun_succ]
        rcases (hbudget i (by omega)).cases (hm i) (hends i (by omega)) (hcount i ▸ ht) with
          hp | ⟨-, hb, -⟩
        · rw [if_neg (not_not.mpr hp), burstRemaining_of_progress hp]
          exact ih
        · rw [if_pos fun hp => by rw [burstRemaining_of_progress hp] at hb; omega, hb]
          push_cast
          omega
    exact hsum n le_rfl
  · rw [machineRun_succ]
    exact (hbudget i hi.le).executes_nothing (hm i).tables hp hr hb
  · rw [machineRun_succ]
    exact (hbudget i hi.le).not_blocked (hm i) (hends i hi) hb hs

/-- A thread that writes as its last command and is then at a command that computes. -/
def lastWriteWorkload (next : CommandType) : List ProcessSpec :=
  [⟨0, [], .high, [], 0, 0, [⟨0, [.ioWrite, next], 1⟩]⟩]

def lastWriteRun (next : CommandType) : ℕ → Kernel × Phase :=
  machineRun (kernelInit .zero ⟨.rr, 0, false, false⟩ (lastWriteWorkload next))

theorem burst_not_overdrawn_lastWrite :
    0 ≤ ((lastWriteRun .compute 80).1.tcb 0).burstRemaining ∧
      (completedCommands (lastWriteRun .compute) 0 80 : ℤ) +
        ((lastWriteRun .compute 80).1.tcb 0).burstRemaining = 1 ∧
      ((lastWriteRun .compute 80).1.tcb 0).state = .done := by
  have hw : ValidWorkload (lastWriteWorkload .compute) := by decide
  have hnone : ∀ m < 80, faultedAt (lastWriteRun .compute m) = none ∧
      faultingThread (lastWriteRun .compute m).1 = none := by
    decide +kernel
  have hidle : ∀ m < 80, ∀ t ∈ (lastWriteRun .compute m).1.runningThread,
      ((lastWriteRun .compute m).1.tcb t).burstRemaining = 1 →
        (threadCurrentCommand ((lastWriteRun .compute m).1.tcb t).advance).Idle
          (lastWriteRun .compute m).1.config.deadlockEnabled := by
    decide +kernel
  have hends : ∀ m < 80, EndsWell (lastWriteRun .compute m) := by
    intro m hm
    obtain ⟨hf, hp⟩ := hnone m hm
    refine ⟨fun _ t ht _ => hidle m hm t ht, fun t ⟨p, hs, _⟩ => ?_, fun _ t ht => ?_⟩
    · rw [hf] at hs
      cases hs
    · rw [hp] at ht
      cases ht
  have hcount : 0 < (lastWriteRun .compute 0).1.threadCount := by decide +kernel
  have hburst : ((lastWriteRun .compute 0).1.tcb 0).burstRemaining = 1 := by decide +kernel
  have hdone : ((lastWriteRun .compute 80).1.tcb 0).state = .done := by decide +kernel
  obtain ⟨h0, hsum, -⟩ := burst_not_overdrawn .zero ⟨.rr, 0, false, false⟩ hw (by decide)
    (rfl : lastWriteRun .compute = _) hends 0 hcount
  exact ⟨h0, hsum.trans hburst, hdone⟩

/-- The thread writes again with nothing left of its burst. -/
theorem burst_overdrawn :
    ValidWorkload (lastWriteWorkload .ioWrite) ∧ PositiveBursts (lastWriteWorkload .ioWrite) ∧
      ((lastWriteRun .ioWrite 0).1.tcb 0).burstRemaining = 1 ∧
      ((lastWriteRun .ioWrite 80).1.tcb 0).burstRemaining = -1 ∧
      completedCommands (lastWriteRun .ioWrite) 0 80 = 2 := by
  refine ⟨by decide, by decide, ?_⟩
  decide +kernel

end FleetOS
