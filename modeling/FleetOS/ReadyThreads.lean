import FleetOS.RunIndependence
import FleetOS.WakeRelations

/-!
# No ready thread is forgotten

A thread that is ready but in no queue would never run again. Every change of the scheduler is one of
a few (`Switch`, `Added`, `Withdrawn`, `Boosted`, `Demoted`), and none of these leaves a thread ready
outside the queues that was not so before (`Remembers`). Only the threads of processes that are yet to
arrive are in this state, and an arrival queues them. So in every run the ready threads of the
processes that have arrived are all queued, and the processor is idle only when there are none
(`ready_threads_queued`).
-/

namespace FleetOS

namespace Scheduler

/-- Ready, but in no queue. -/
def Forgotten (s : Scheduler) (u : ℕ) : Prop := (s.tcb u).state = .ready ∧ u ∉ s.queued

/-- No thread becomes forgotten. -/
def Remembers (s s' : Scheduler) : Prop := ∀ u, s'.Forgotten u → s.Forgotten u

/-! ## The changes of the scheduler -/

variable {s s' s'' : Scheduler} {n t : ℕ}

theorem Remembers.refl (s : Scheduler) : Remembers s s := fun _ h => h

theorem Remembers.trans (h : Remembers s s') (h' : Remembers s' s'') : Remembers s s'' :=
  fun u hu => h u (h' u hu)

theorem Remembers.of_queues (hq : s'.queued = s.queued) (hs : ∀ u, (s'.tcb u).state = (s.tcb u).state) :
    Remembers s s' :=
  fun u hu => ⟨hs u ▸ hu.1, hq ▸ hu.2⟩

/-- A thread that is not ready is not forgotten. -/
theorem Remembers.setTcb {f : TCB → TCB} (hf : (f (s.tcb t)).state = .ready → (s.tcb t).state = .ready) :
    Remembers s (s.setTcb t f) := by
  rintro u ⟨hr, hq⟩
  refine ⟨?_, hq⟩
  by_cases hu : u = t
  · rw [hu, setTcb_self] at hr
    exact hu ▸ hf hr
  · rwa [setTcb_of_ne s hu] at hr

theorem Switch.remembers (sw : Switch s s' t) : Remembers s s' := by
  rintro u ⟨hr, hq⟩
  have hut : u ≠ t := by
    rintro rfl
    simp [sw.tcb] at hr
  have hnot : ¬(s.Yields u ∨ u ∈ s.queued) := fun h => (sw.mem.mpr h).elim hut hq
  rw [not_or] at hnot
  simp only [sw.tcb, if_neg hut, if_neg hnot.1] at hr
  exact ⟨hr, hnot.2⟩

theorem Added.remembers (a : Added s s' t) (u : ℕ) (hu : s'.Forgotten u) : u ≠ t ∧ s.Forgotten u := by
  obtain ⟨hr, hq⟩ := hu
  rw [a.queued, Multiset.mem_cons, not_or] at hq
  rw [a.tcb, if_neg hq.1] at hr
  exact ⟨hq.1, hr, hq.2⟩

theorem Withdrawn.remembers (w : Withdrawn s s' t) : Remembers s s' := by
  rintro u ⟨hr, hq⟩
  have hut : u ≠ t := by
    rintro rfl
    rcases w.stopped with hs | hs <;> · rw [hr] at hs; cases hs
  rw [w.other u hut] at hr
  rw [w.queued, Multiset.mem_erase_of_ne hut] at hq
  exact ⟨hr, hq⟩

theorem Boosted.remembers (b : Boosted s s' t) : Remembers s s' := .of_queues b.queued b.state

theorem Demoted.remembers (d : Demoted s s' t) : Remembers s s' := by
  rintro u ⟨hr, hq⟩
  rw [d.queued, Multiset.mem_cons, not_or] at hq
  exact ⟨d.other u hq.1 ▸ hr, hq.2⟩

theorem remembers_schedulerNext (h : s.Sound n) : Remembers s (schedulerNext s) := by
  rcases schedulerNext_cases h with ⟨-, he⟩ | ⟨t, sw⟩
  · rw [he]
    exact .refl s
  · exact sw.remembers

theorem remembers_schedulerTerminate (h : s.Disciplined n) (t : ℕ) : Remembers s (schedulerTerminate s t) :=
  (withdrawn_schedulerTerminate h.rr_wf h.mlfq_wf t).1.remembers

theorem remembers_schedulerBlock (h : s.Disciplined n) (hcur : s.currentThread = some t)
    (reason : BlockReason) :
    Remembers s (schedulerBlock (s.setTcb t fun c => threadBlock c reason) t) := by
  obtain ⟨w, -, -⟩ := withdrawn_blockCurrent h.toSound hcur (h.current t hcur).1 reason
  rw [schedulerBlock_current hcur]
  exact w.remembers.trans (remembers_schedulerNext (w.sound h.toSound))

theorem remembers_boostQueue {i : ℤ} (hi : 0 ≤ i ∧ i ≤ 2) :
    ∀ (fuel : ℕ) (s : Scheduler), s.schedMode = .mlfq → s.Disciplined n →
      Remembers s (boostQueue i fuel s)
  | 0, s, _, _ => .refl s
  | fuel + 1, s, hm, h => by
    rw [boostQueue_succ]
    split_ifs with hne
    · exact .refl s
    · have b := boosted hi hm h.toSound hne
      exact b.remembers.trans
        (remembers_boostQueue hi fuel _ (b.mode.trans hm) (b.frame h).disciplined)

theorem remembers_schedulerPriorityBoost (h : s.Disciplined n) (tick : ℤ) :
    Remembers s (schedulerPriorityBoost s tick) := by
  unfold schedulerPriorityBoost
  split
  · exact .refl s
  · rename_i hm
    set s₀ : Scheduler := { s with
      lastBoostTick := tick, priorityBoostCount := s.priorityBoostCount + 1 }
    have hf : Frame s s₀ n ∅ := h.congr rfl rfl rfl rfl rfl rfl
    have h₁ := frame_boostQueue (i := 1) (by omega) (s.mlfq 1).count s₀ hm hf.disciplined
    have hr₀ : Remembers s s₀ := .of_queues rfl fun _ => rfl
    have hr₁ := remembers_boostQueue (i := 1) (by omega) (s.mlfq 1).count s₀ hm hf.disciplined
    exact (hr₀.trans hr₁).trans
      (remembers_boostQueue (i := 2) (by omega) _ _ (h₁.mode.trans hm) h₁.disciplined)

theorem remembers_demote_next (h : s.Disciplined n) (hcur : s.currentThread = some t) :
    Remembers s (schedulerNext (demoteCurrent s t)) := by
  by_cases hd : s.schedMode = .mlfq ∧ (s.tcb t).state = .running
  · have hc := h.current_lt t hcur
    have d := demoted h.toSound hd.1 hc hd.2
    exact d.remembers.trans (remembers_schedulerNext (d.sound h.toSound hc (h.current t hcur).1))
  · have he : demoteCurrent s t = s := if_neg hd
    rw [he]
    exact remembers_schedulerNext h.toSound

theorem remembers_chargeQuantum (h : s.Disciplined n) : Remembers s (chargeQuantum s) := by
  unfold chargeQuantum
  split
  · exact remembers_schedulerNext h.toSound
  · rename_i c hc
    set s₀ : Scheduler := { s with quantumRemaining := s.quantumRemaining - 1 }
    have hf : Frame s s₀ n ∅ := h.congr rfl rfl rfl rfl rfl rfl
    have hr₀ : Remembers s s₀ := .of_queues rfl fun _ => rfl
    dsimp only
    split_ifs
    · exact hr₀.trans (remembers_demote_next hf.disciplined hc)
    · exact hr₀

theorem remembers_schedulerTick (h : s.Disciplined n) (tick : ℤ) : Remembers s (schedulerTick s tick) := by
  obtain ⟨b, hcase⟩ := schedulerTick_cases s tick
  set s₀ : Scheduler := { s with lastBoostTick := b }
  have hf : Frame s s₀ n ∅ := h.congr rfl rfl rfl rfl rfl rfl
  have hr₀ : Remembers s s₀ := .of_queues rfl fun _ => rfl
  have hr := hr₀.trans (remembers_chargeQuantum hf.disciplined)
  rcases hcase with he | ⟨-, he⟩ <;> rw [he]
  · exact hr
  · exact hr.trans (remembers_schedulerPriorityBoost (frame_chargeQuantum hf.disciplined).disciplined tick)

/-- A thread that is woken goes to a queue. -/
theorem remembers_unblock (h : s.Disciplined n) (ht : t < n) (hb : (s.tcb t).state = .blocked) :
    Remembers s (schedulerUnblock (s.setTcb t threadUnblock) t) := by
  obtain ⟨hq, hcur⟩ := h.blocked hb
  have hd : (s.setTcb t threadUnblock).Sound n :=
    (h.setTcb (fun hm => absurd hm hq) (fun hr => by simp [threadUnblock, hb] at hr)
      (fun hc => absurd hc hcur) fun _ => by simpa [threadUnblock, hb] using h.level t ht).toSound
  intro u hu
  obtain ⟨hut, hr, hq⟩ := (added hd ht hq).remembers u hu
  exact ⟨setTcb_of_ne s hut threadUnblock ▸ hr, hq⟩

end Scheduler

open Scheduler (Remembers)

/-! ## The parts of a tick -/

/-- No thread becomes forgotten, and a process that has not arrived stays so unless it is terminated. -/
structure Keeps (k k' : Kernel) : Prop where
  threadCount : k'.threadCount = k.threadCount
  disciplined : k.sched.Disciplined k.threadCount → k'.sched.Disciplined k.threadCount
  remembers : k.sched.Disciplined k.threadCount → Remembers k.sched k'.sched
  new : ∀ p, (k.procs p).state = .new → (k'.procs p).state = .new ∨ (k'.procs p).state = .terminated
  terminated : ∀ p, (k.procs p).state = .terminated → (k'.procs p).state = .terminated

section keeps

variable {k k' k'' : Kernel} {t : ℕ}

theorem Keeps.trans (h : Keeps k k') (h' : Keeps k' k'') : Keeps k k'' := by
  refine ⟨h'.threadCount.trans h.threadCount, fun hd => ?_, fun hd => ?_, fun p hp => ?_,
    fun p hp => h'.terminated p (h.terminated p hp)⟩
  · rw [← h.threadCount]
    exact h'.disciplined (h.threadCount.symm ▸ h.disciplined hd)
  · exact (h.remembers hd).trans (h'.remembers (h.threadCount.symm ▸ h.disciplined hd))
  · rcases h.new p hp with hn | ht
    · exact h'.new p hn
    · exact Or.inr (h'.terminated p ht)

/-- What is calm keeps the processes. -/
theorem Keeps.of_calm (hc : Calm k k')
    (hd : k.sched.Disciplined k.threadCount → k'.sched.Disciplined k.threadCount)
    (hr : k.sched.Disciplined k.threadCount → Remembers k.sched k'.sched) : Keeps k k' :=
  ⟨hc.threadCount, hd, hr, fun p hp => Or.inl ((hc.new p).mpr hp), fun p hp => (hc.terminated p).mpr hp⟩

theorem Keeps.of_sched (hc : Calm k k') (hs : k'.sched = k.sched) : Keeps k k' :=
  .of_calm hc (fun hd => hs ▸ hd) fun _ => hs ▸ .refl k.sched

theorem Keeps.setTcb (k : Kernel) {f : TCB → TCB} (hid : (f (k.tcb t)).ident = (k.tcb t).ident)
    (hs : (f (k.tcb t)).state = (k.tcb t).state) (hl : (f (k.tcb t)).mlfqLevel = (k.tcb t).mlfqLevel) :
    Keeps k (k.setTcb t f) :=
  .of_calm (.of_rest rfl) (fun hd => (Scheduler.frame_setTcb_of_kernel hd hid hs hl).disciplined)
    fun _ => .setTcb fun hr => hs.symm.trans hr

theorem threadRelation_keeps : ThreadRelation Keeps where
  trans h h' := h.trans h'
  same h := ⟨h.threadCount, fun hd => h.sched.symm ▸ hd, fun _ => h.sched.symm ▸ .refl _,
    fun p hp => Or.inl ((h.state p).trans hp), fun p hp => (h.state p).trans hp⟩

theorem Keeps.unblockThread (ht : t < k.threadCount) (hb : (k.tcb t).state = .blocked) :
    Keeps k (unblockThread k t) := by
  refine .of_calm (steady_unblockThread k t).calm (fun hd => ?_) fun hd => ?_ <;> rw [sched_unblockThread]
  · exact (Scheduler.enqueue_unblock hd ht hb).frame.disciplined
  · exact Scheduler.remembers_unblock hd ht hb

theorem wakeRelation_keeps : WakeRelation Keeps :=
  ⟨threadRelation_keeps, fun ht hb => .unblockThread ht hb⟩

theorem keeps_terminate (k : Kernel) (p : ℕ) : Keeps k (terminate k p) := by
  refine ⟨rfl, fun hd => hd, fun _ => .refl _, fun q hq => ?_, fun q hq => ?_⟩ <;> by_cases hqp : q = p
  · exact Or.inr (hqp ▸ (terminate_procs_self k p).2)
  · exact Or.inl (terminate_procs_of_ne k hqp ▸ hq)
  · exact hqp ▸ (terminate_procs_self k p).2
  · exact terminate_procs_of_ne k hqp ▸ hq

theorem endRelation_keeps : EndRelation Keeps where
  toThreadRelation := threadRelation_keeps
  done k t := .of_calm (.of_rest rfl) (fun hd => (Scheduler.frame_markDone hd t).disciplined)
    fun _ => Remembers.setTcb (s := k.sched) (t := t) (f := fun c => { c with state := .done }) (by simp)
  terminate := keeps_terminate

theorem serveRelation_keeps : ServeRelation Keeps where
  toEndRelation := endRelation_keeps
  serve {k pid t} ht hb _ := by
    set k₁ := unblockThread k t
    set k₂ : Kernel := { k₁ with
      deadlockPhase := Function.update k₁.deadlockPhase pid (k₁.deadlockPhase pid + 1) }
    have h₂ : Keeps k₁ k₂ := .of_sched (.of_rest rfl) rfl
    exact ((Keeps.unblockThread ht hb).trans h₂).trans (.setTcb k₂ rfl rfl rfl)

/-- The thread that blocks has the processor. -/
theorem Keeps.blockThread (hrun : k.runningThread = some t) (reason : BlockReason) :
    Keeps k (blockThread k t reason) := by
  obtain ⟨hcur, hstate⟩ := runningThread_some hrun
  refine .of_calm (steady_blockThread k t reason).calm (fun hd => ?_) fun hd => ?_ <;>
    rw [sched_blockThread hstate]
  · exact (Scheduler.frame_schedulerBlock hd hcur reason rfl).1.disciplined
  · exact Scheduler.remembers_schedulerBlock hd hcur reason

theorem keeps_executeCommand (hrun : k.runningThread = some t) : Keeps k (executeCommand k t) := by
  have hx := commandEffect k t
  generalize executeCommand k t = k' at hx ⊢
  have hprep : ∀ {k₁}, Prepared k k₁ → Keeps k k₁ ∧ k₁.runningThread = some t := by
    intro k₁ hk
    refine ⟨.of_sched (.of_rest (by rw [hk.rest])) hk.sched, ?_⟩
    rw [runningThread_iff, hk.sched]
    exact runningThread_iff.mp hrun
  cases hx with
  | @ran k₁ hk hp =>
    have h₁ : Keeps k₁ (k₁.setTcb t threadExecute) :=
      .setTcb k₁ (ident_threadExecute _) (state_threadExecute _) (mlfqLevel_threadExecute _)
    exact ((hprep hk).1.trans h₁).trans (wakeRelation_keeps.wakeThreads _ _)
  | refused hk hp hw hc => exact (hprep hk).1.trans (.blockThread (hprep hk).2 _)
  | acquired hk hc hd => exact (hprep hk).1.trans (.setTcb _ rfl rfl rfl)
  | @wrote k₁ hk hp hc pid path =>
    have h₁ : Keeps k₁ (k₁.setTcb t TCB.advance) := .setTcb k₁ rfl rfl rfl
    have hrun₁ : (k₁.setTcb t TCB.advance).runningThread = some t := by
      obtain ⟨hcur, hstate⟩ := runningThread_iff.mp (hprep hk).2
      refine runningThread_iff.mpr ⟨hcur, ?_⟩
      simpa [Kernel.setTcb, TCB.advance] using hstate
    have hio : Keeps (blockThread (k₁.setTcb t TCB.advance) t .ioBlock)
        (registerIo (blockThread (k₁.setTcb t TCB.advance) t .ioBlock) pid path) := by
      rw [registerIo_rest]
      exact .of_sched (.of_rest rfl) rfl
    exact (((hprep hk).1.trans h₁).trans (.blockThread hrun₁ _)).trans hio

theorem keeps_triggerPageFault (k : Kernel) : Keeps k (triggerPageFault k) := by
  rcases triggerPageFault_cases k with ⟨pcb, addr, he⟩ | he | ⟨t, p, pcb, addr, page, hrun, -, -, -, -, he⟩ <;>
    rw [he]
  · exact .of_sched (.of_rest rfl) rfl
  · exact threadRelation_keeps.refl k
  · rw [registerPageFault_rest]
    set k₁ : Kernel := { k with mem := (memAccess k.mem pcb addr).mem }
    have h₁ : Keeps k k₁ := .of_sched (.of_rest rfl) rfl
    have hrun₁ : k₁.runningThread = some t := hrun
    exact (h₁.trans (.blockThread hrun₁ .pageFault)).trans (.of_sched (.of_rest rfl) rfl)

/-- Only arrivals make a process arrive, and none forgets a thread. -/
theorem keeps_machineStep {m : Kernel × Phase} (h : MachineTables m) (hp : m.2 ≠ .arrivals) :
    Keeps m.1 (machineStep m).1 := by
  obtain ⟨k, ph⟩ := m
  have hrefl := threadRelation_keeps.refl k
  cases ph with
  | arrivals => exact absurd rfl hp
  | top =>
    simp only [machineStep]
    split_ifs
    · exact hrefl
    · exact .of_sched (.of_rest rfl) rfl
  | ioEvents => exact wakeRelation_keeps.foldl wakeRelation_keeps.completeIoEvent _ k
  | pageFaults => exact wakeRelation_keeps.foldl wakeRelation_keeps.completePageFault _ k
  | compact => exact .of_sched (.of_rest rfl) rfl
  | dispatch =>
    simp only [machineStep, ensureRunning]
    split_ifs
    · exact hrefl
    · exact .of_calm (.of_rest rfl) (fun hd => (Scheduler.frame_schedulerNext hd).disciplined)
        fun hd => Scheduler.remembers_schedulerNext hd.toSound
  | execute =>
    simp only [machineStep]
    split
    · exact hrefl
    · exact keeps_executeCommand ‹_›
  | retire t =>
    refine endRelation_keeps.retire (.of_calm (.of_rest rfl) (fun hd => ?_) fun hd => ?_)
    · exact (Scheduler.frame_schedulerTerminate hd).1.disciplined
    · exact Scheduler.remembers_schedulerTerminate hd t
  | detect => exact serveRelation_keeps.detectDeadlock k
  | crash => exact serveRelation_keeps.injectCrash k
  | pageFault => exact keeps_triggerPageFault k
  | schedTick =>
    exact .of_calm (.of_rest rfl) (fun hd => (Scheduler.frame_schedulerTick hd k.currentTick).disciplined)
      fun hd => Scheduler.remembers_schedulerTick hd k.currentTick
  | waitTime => exact .of_sched (calm_trackWaitTime k) rfl
  | snapshot => exact .of_sched (steady_snapshotSync k).calm (sched_snapshotSync k)
  | wakeWaiters => exact wakeRelation_keeps.wakeBufferWaiters k
  | finish =>
    simp only [machineStep]
    split_ifs
    · exact hrefl
    · exact ⟨rfl, fun hd => hd, fun _ => .refl _, fun _ hn => Or.inl hn, fun _ ht => ht⟩
  | halted => exact hrefl

end keeps

/-! ## Arrivals -/

/-- The threads of which `C` holds are queued one after the other. -/
def queueThreads (C : TCB → Prop) [DecidablePred C] (l : List ℕ) (k : Kernel) : Kernel :=
  l.foldl (fun k t => if C (k.tcb t) then { k with sched := schedulerAdd k.sched t } else k) k

theorem remembers_queueThreads {C : TCB → Prop} [DecidablePred C] {n : ℕ} :
    ∀ (l : List ℕ) {k : Kernel}, k.sched.Disciplined n → l.Nodup →
      (∀ t ∈ l, t < n ∧ (C (k.tcb t) → k.sched.Parked t ∧ k.sched.currentThread ≠ some t)) →
      Remembers k.sched (queueThreads C l k).sched ∧
        ∀ t ∈ l, C (k.tcb t) → ¬(queueThreads C l k).sched.Forgotten t
  | [], k, _, _, _ => ⟨.refl _, fun _ h => absurd h List.not_mem_nil⟩
  | t :: l, k, hd, hnd, hl => by
    obtain ⟨htl, hnd⟩ := List.nodup_cons.mp hnd
    obtain ⟨ht, hpark⟩ := hl t List.mem_cons_self
    have hrest := fun u hu => hl u (List.mem_cons_of_mem t hu)
    by_cases hc : C (k.tcb t)
    · obtain ⟨hpark, hcur⟩ := hpark hc
      set k₁ : Kernel := { k with sched := schedulerAdd k.sched t }
      have he : queueThreads C (t :: l) k = queueThreads C l k₁ := by
        rw [queueThreads, List.foldl_cons, if_pos hc]
        rfl
      have a := Scheduler.added hd.toSound ht hpark.1
      have hsame : ∀ u ∈ l, k₁.tcb u = k.tcb u := fun u hu => by
        have hut : u ≠ t := fun he => htl (he ▸ hu)
        rw [Kernel.tcb, a.tcb, if_neg hut]
        rfl
      obtain ⟨hr, hf⟩ := remembers_queueThreads (C := C) l (k := k₁)
        (a.disciplined hd ht hpark.1 hcur) hnd fun u hu => by
          refine ⟨(hrest u hu).1, fun hcu => ?_⟩
          rw [hsame u hu] at hcu
          obtain ⟨hp, hcu'⟩ := (hrest u hu).2 hcu
          have hut : u ≠ t := fun he => htl (he ▸ hu)
          refine ⟨⟨?_, ?_⟩, a.current ▸ hcu'⟩
          · rw [a.queued, Multiset.mem_cons, not_or]
            exact ⟨hut, hp.1⟩
          · rw [a.tcb, if_neg hut]
            exact hp.2
      rw [he]
      refine ⟨fun u hu => (a.remembers u (hr u hu)).2, List.forall_mem_cons.mpr ⟨fun _ hf' => ?_,
        fun u hu hcu => hf u hu (hsame u hu ▸ hcu)⟩⟩
      exact (a.remembers t (hr t hf')).1 rfl
    · have he : queueThreads C (t :: l) k = queueThreads C l k := by
        rw [queueThreads, List.foldl_cons, if_neg hc]
        rfl
      obtain ⟨hr, hf⟩ := remembers_queueThreads (C := C) l hd hnd hrest
      rw [he]
      exact ⟨hr, List.forall_mem_cons.mpr ⟨fun h => absurd h hc, hf⟩⟩

/-- Only threads of processes that are yet to arrive are forgotten. -/
def Kernel.Heeds (k : Kernel) (n : ℕ) : Prop :=
  ∀ t < k.threadCount, k.sched.Forgotten t →
    ∃ p < n, (k.procs p).pid = (k.tcb t).ownerPid ∧ (k.procs p).state = .new

theorem heeds_arrive {k : Kernel} (h : Tables k) (hk : k.Heeds k.procCount) {p : ℕ} (hp : p < k.procCount) :
    (arrive k p).Heeds (arrive k p).procCount := by
  by_cases hnew : (k.procs p).state = .new ∧ (k.procs p).arrivalTime ≤ k.currentTick
  · have ha := arrived_arrive h hp
    obtain ⟨_, hq, -⟩ := ha.threads
    obtain ⟨hsteady, -⟩ := steady_arrive hnew
    have he : arrive k p = queueThreads (fun c => c.ownerPid = (k.procs p).pid) k.threads
        (k.setProc p fun c => pcbSetState c .ready) := arrive_eq hnew
    obtain ⟨hr, hf⟩ := remembers_queueThreads (C := fun c => c.ownerPid = (k.procs p).pid)
      (n := k.threadCount) k.threads (k := k.setProc p fun c => pcbSetState c .ready) h.disciplined
      List.nodup_range fun t ht => by
        refine ⟨mem_threads.mp ht, fun ho => ?_⟩
        obtain ⟨hpark, hready⟩ := h.fresh p hp hnew.1 t (mem_threads.mp ht) ho
        refine ⟨hpark, fun hcur => ?_⟩
        rcases (h.disciplined.current t hcur).2 with hs | hs <;>
        · have hready : (k.sched.tcb t).state = .ready := hready
          rw [hready] at hs
          cases hs
    rw [← he] at hr hf
    intro t htn hforgot
    have ht : t < k.threadCount := ha.threadCount ▸ htn
    obtain ⟨q, hqn, hpid, hqnew⟩ := hk t ht (hr t hforgot)
    have howner : ((arrive k p).tcb t).ownerPid = (k.tcb t).ownerPid := hq.frame.ownerPid t
    refine ⟨q, ha.procCount.symm ▸ hqn, by rw [ha.pid, howner, hpid], (hsteady.new q).mpr ?_⟩
    have hqp : q ≠ p := by
      rintro rfl
      exact hf t (mem_threads.mpr ht) hpid.symm hforgot
    rw [setProc_of_ne k hqp]
    exact hqnew
  · have he : arrive k p = k := if_neg hnew
    rw [he]
    exact hk

theorem heeds_checkArrivals {k : Kernel} (h : Tables k) (hk : k.Heeds k.procCount) :
    (checkArrivals k).Heeds (checkArrivals k).procCount := by
  have hstep : ∀ (l : List ℕ) (k : Kernel), Tables k → k.Heeds k.procCount → (∀ p ∈ l, p < k.procCount) →
      (l.foldl arrive k).Heeds (l.foldl arrive k).procCount := by
    intro l
    induction l with
    | nil => exact fun k _ hk _ => hk
    | cons p l ih =>
      intro k h hk hl
      have hp := hl p List.mem_cons_self
      have ha := arrived_arrive h hp
      exact ih _ ha.tables (heeds_arrive h hk hp) fun q hq =>
        ha.procCount.symm ▸ hl q (List.mem_cons_of_mem p hq)
  exact hstep _ k h hk fun p hp => List.mem_range.mp hp

theorem heeds_machineStep {m : Kernel × Phase} (h : MachineTables m) (hk : m.1.Heeds m.1.procCount) :
    (machineStep m).1.Heeds (machineStep m).1.procCount := by
  by_cases hp : m.2 = .arrivals
  · obtain ⟨k, ph⟩ := m
    obtain rfl : ph = .arrivals := hp
    exact heeds_checkArrivals h.tables hk
  · have hs := keeps_machineStep h hp
    have ht := tableStep h
    intro t htn hforgot
    have htn : t < m.1.threadCount := hs.threadCount ▸ htn
    obtain ⟨p, hpn, hpid, hnew⟩ := hk t htn (hs.remembers h.tables.disciplined t hforgot)
    have howner : ((machineStep m).1.tcb t).ownerPid = (m.1.tcb t).ownerPid :=
      congrArg (fun i => i.2.1) (ht.ident t)
    refine ⟨p, ht.procCount.symm ▸ hpn, by rw [ht.pid, howner, hpid],
      (hs.new p hnew).resolve_right fun hterm => ?_⟩
    -- a process that ends has no ready threads
    rcases (ht.terminated p).mp hterm with h' | he
    · rw [hnew] at h'
      cases h'
    · have hdone := (cleanedUp_machineStep h he).2.2 t ⟨htn, hpid.symm⟩
      have hready : ((machineStep m).1.tcb t).state = .ready := hforgot.1
      rw [hdone] at hready
      cases hready

/-! ## Initialisation -/

/-- New threads come behind the others, and into no queue. -/
theorem behind_bootThreads (p : ℕ) : ∀ (specs : List ThreadSpec) (k : Kernel),
    (specs.foldl (bootThread p) k).procs = k.procs ∧
      (specs.foldl (bootThread p) k).sched.queued = k.sched.queued ∧
      ∀ t < k.threadCount, (specs.foldl (bootThread p) k).tcb t = k.tcb t
  | [], _ => ⟨rfl, rfl, fun _ _ => rfl⟩
  | spec :: specs, k => by
    obtain ⟨hp, hq, ht⟩ := behind_bootThreads p specs (bootThread p k spec)
    refine ⟨hp, hq, fun t htn => (ht t (htn.trans k.threadCount.lt_succ_self)).trans ?_⟩
    rw [Kernel.tcb, sched_bootThread, Scheduler.setTcb_of_ne k.sched htn.ne]
    rfl

section loading

variable {w : List ProcessSpec} {i : ℕ} {k : Kernel}

/-- The threads behind those of the processes before belong to the new process. -/
theorem Loading.owner_new (h : Loading w (threadIds (w.take (i + 1))) i k) (hi : i < w.length) {t : ℕ}
    (hlow : (threadIds (w.take i)).length ≤ t) (ht : t < k.threadCount) :
    (k.tcb t).ownerPid = (k.procs i).pid := by
  have hget := h.ids_get ht
  rw [threadIds_take_succ hi, List.getElem?_append_right hlow, List.getElem?_map,
    Option.map_eq_some_iff] at hget
  obtain ⟨s, -, hs⟩ := hget
  rw [h.pid i hi]
  exact (congrArg Prod.snd hs).symm

/-- A process that arrives at once has all its threads queued. -/
theorem Loading.heeds_enqueue (h : Loading w (threadIds (w.take (i + 1))) i k) (hi : i < w.length) {n : ℕ}
    (hn : n = (threadIds (w.take i)).length) (hcount : k.threadCount = n + w[i].threads.length)
    (hold : ∀ t < n, k.sched.Forgotten t →
      ∃ p < i, (k.procs p).pid = (k.tcb t).ownerPid ∧ (k.procs p).state = .new) :
    (queueThreads (fun _ => True) (List.range' n w[i].threads.length)
      (k.setProc i fun c => pcbSetState c .ready)).Heeds (i + 1) := by
  set k₁ := k.setProc i fun c => pcbSetState c .ready with hk₁
  have howner : ∀ t, n ≤ t → t < k.threadCount → (k.tcb t).ownerPid = (k.procs i).pid :=
    fun t hlow ht => h.owner_new hi (hn ▸ hlow) ht
  have hadded : queueThreads (fun _ => True) (List.range' n w[i].threads.length) k₁ =
      (List.range' n w[i].threads.length).foldl
        (fun k t => ({ k with sched := schedulerAdd k.sched t } : Kernel)) k₁ := by
    simp only [queueThreads, if_true]
  have hq := h.enqueue hi howner
  rw [hcount, Nat.add_sub_cancel_left, ← hadded] at hq
  have hst : Steady k₁ (queueThreads (fun _ => True) (List.range' n w[i].threads.length) k₁) := by
    rw [hadded]
    exact steady_foldl (fun k t => steady_sched k _) _ k₁
  obtain ⟨hr, hf⟩ := remembers_queueThreads (C := fun _ => True) (n := k.threadCount)
    (List.range' n w[i].threads.length) (k := k₁) h.disciplined (List.nodup_range' ..)
    fun t ht => by
      rw [List.mem_range'_1] at ht
      refine ⟨by omega, fun _ => ⟨h.fresh i hi (h.waiting i hi le_rfl) t (by omega)
        (howner t ht.1 (by omega)), fun hcur => ?_⟩⟩
      have hnone : k₁.sched.currentThread = none := h.current
      rw [hnone] at hcur
      cases hcur
  intro t ht hforgot
  have ht : t < k.threadCount := hst.threadCount ▸ ht
  have hlow : t < n := by
    by_contra hge
    rw [hcount] at ht
    exact hf t (List.mem_range'_1.mpr (by omega)) trivial hforgot
  obtain ⟨p, hp, hpid, hnew⟩ := hold t hlow (hr t hforgot)
  have hkept : _ = (k.tcb t).ownerPid := hq.frame.ownerPid t
  refine ⟨p, by omega, ?_, (hst.new p).mpr ?_⟩
  · rw [hst.pid, pid_setReady, hpid]
    exact hkept.symm
  · rw [hk₁, setProc_of_ne k hp.ne]
    exact hnew

theorem Loading.heeds_process (hw : ValidWorkload w) (hi : i < w.length)
    (h : Loading w (threadIds (w.take i)) i k) (hk : k.Heeds i) :
    (bootProcess k (w[i], i)).Heeds (i + 1) := by
  set k₁ := k.setProc i fun c => { c with arrivalTime := w[i].arrivalTime } with hk₁
  set k₂ : Kernel :=
    { k₁ with graph := deadlockSetPriority k₁.graph (k₁.procs i).pid (k₁.procs i).priority } with hk₂
  set k₃ := bootPage i (bootPage i k₂ 0) 1 with hk₃
  set k₄ := w[i].threads.foldl (bootThread i) k₃ with hk₄
  have hid : ∀ p, (k₃.procs p).identity = (k.procs p).identity := by
    intro p
    rw [identity_bootPage, identity_bootPage]
    exact identity_setProc (f := fun c => { c with arrivalTime := w[i].arrivalTime }) rfl p
  have hlen := length_threadIds_take_le hw (i + 1)
  rw [threadIds_take_succ hi, List.length_append, List.length_map] at hlen
  have h₃ : Loading w (threadIds (w.take i)) i k₃ := h.congr rfl rfl rfl hid
  have h₄ : Loading w (threadIds (w.take (i + 1))) i k₄ := by
    rw [threadIds_take_succ hi]
    exact addThreads hi w[i].threads h₃ hlen
  obtain ⟨hprocs, hqueued, htcb⟩ := behind_bootThreads i w[i].threads k₃
  have hn : k₄.threadCount = k₃.threadCount + w[i].threads.length := by
    rw [h₄.threadCount, h₃.threadCount, threadIds_take_succ hi, List.length_append, List.length_map]
  have hold : ∀ t < k₃.threadCount, k₄.sched.Forgotten t →
      ∃ p < i, (k₄.procs p).pid = (k₄.tcb t).ownerPid ∧ (k₄.procs p).state = .new := by
    rintro t ht ⟨hready, hq⟩
    have hsame : k₄.tcb t = k.tcb t := htcb t ht
    have hready : (k.tcb t).state = .ready := hsame ▸ hready
    obtain ⟨p, hp, hpid, hnew⟩ := hk t ht ⟨hready, fun hmem => hq (hqueued.symm ▸ hmem)⟩
    have hpid₃ : (k₃.procs p).pid = (k.procs p).pid := congrArg Prod.fst (hid p)
    have hstate₃ : (k₃.procs p).state = (k.procs p).state := congrArg (fun x => x.2.2) (hid p)
    refine ⟨p, hp, ?_, ?_⟩
    · rw [hprocs, hsame, hpid₃, hpid]
    · rw [hprocs, hstate₃, hnew]
  have hboot : bootProcess k (w[i], i) =
      if (k₄.procs i).arrivalTime = 0 then
        queueThreads (fun _ => True) (List.range' k₃.threadCount w[i].threads.length)
          (k₄.setProc i fun c => pcbSetState c .ready)
      else k₄ := by
    simp only [queueThreads, if_true]
    rfl
  rw [hboot]
  split_ifs
  · exact h₄.heeds_enqueue hi h₃.threadCount hn hold
  · intro t ht hforgot
    by_cases hlow : t < k₃.threadCount
    · obtain ⟨p, hp, hpid, hnew⟩ := hold t hlow hforgot
      exact ⟨p, by omega, hpid, hnew⟩
    · exact ⟨i, by omega, (h₄.owner_new hi (h₃.threadCount ▸ not_lt.mp hlow) ht).symm,
        h₄.waiting i hi le_rfl⟩

end loading

theorem heeds_kernelInit (k₀ : Kernel) (cfg : KernelConfig) {w : List ProcessSpec}
    (hw : ValidWorkload w) : (kernelInit k₀ cfg w).Heeds (kernelInit k₀ cfg w).procCount := by
  have hloop : ∀ (l : List ProcessSpec) (i : ℕ) (k : Kernel), w.drop i = l → i ≤ w.length →
      Loading w (threadIds (w.take i)) i k → k.Heeds i → ((l.zipIdx i).foldl bootProcess k).Heeds w.length := by
    intro l
    induction l with
    | nil =>
      intro i k hl hle _ hk
      have hi : w.length = i := le_antisymm (by simpa using hl) hle
      exact hi ▸ hk
    | cons spec l ih =>
      intro i k hl hle h hk
      have hi : i < w.length := by
        by_contra hge
        rw [List.drop_of_length_le (not_lt.mp hge)] at hl
        cases hl
      rw [List.drop_eq_getElem_cons hi] at hl
      obtain ⟨rfl, htail⟩ := List.cons.inj hl
      exact ih (i + 1) _ htail hi (h.process hw hi) (h.heeds_process hw hi hk)
  rw [(loading_kernelInit k₀ cfg hw).procCount, kernelInit_eq]
  exact hloop w 0 _ rfl (Nat.zero_le _) (loading_clearedKernel k₀ cfg w) fun t ht => absurd ht t.not_lt_zero

/-! ## Runs -/

/-- What is true in every state of a run. -/
structure Attentive (m : Kernel × Phase) : Prop where
  tables : MachineTables m
  heeds : m.1.Heeds m.1.procCount
  idle : m.2 = .execute → m.1.runningThread = none → m.1.sched.queued = 0

theorem queued_ensureRunning {k : Kernel} (hd : k.sched.Disciplined k.threadCount)
    (hidle : (ensureRunning k).runningThread = none) : (ensureRunning k).sched.queued = 0 := by
  unfold ensureRunning at hidle ⊢
  split_ifs at hidle ⊢ with hrun
  · rw [hidle] at hrun
    cases hrun
  · rcases Scheduler.schedulerNext_cases hd.toSound with ⟨hq, he⟩ | ⟨t, sw⟩
    · exact (congrArg Scheduler.queued he).trans hq
    · have hyields : (schedulerNext k.sched).Yields t := ⟨sw.current, by simp [sw.tcb]⟩
      have hrun : Kernel.runningThread { k with sched := schedulerNext k.sched } = some t :=
        runningThread_iff.mpr hyields
      rw [hidle] at hrun
      cases hrun

theorem attentive_machineStep {m : Kernel × Phase} (h : Attentive m) : Attentive (machineStep m) := by
  refine ⟨tables_machineStep h.tables, heeds_machineStep h.tables h.heeds, fun hp hidle => ?_⟩
  have hd := h.tables.tables.disciplined
  obtain ⟨k, ph⟩ := m
  cases ph with
  | dispatch => exact queued_ensureRunning hd hidle
  | top =>
    simp only [machineStep] at hp
    split_ifs at hp
  | execute =>
    simp only [machineStep] at hp
    split at hp <;> cases hp
  | finish =>
    simp only [machineStep] at hp
    split_ifs at hp
  | _ => cases hp

theorem attentive_machineRun (k₀ : Kernel) (cfg : KernelConfig) {w : List ProcessSpec}
    (hw : ValidWorkload w) (n : ℕ) : Attentive (machineRun (kernelInit k₀ cfg w) n) :=
  Machine.invariant (P := fun _ => True) (fun _ h _ => attentive_machineStep h) (fun _ _ => trivial)
    ⟨tables_machineRun k₀ cfg hw 0, heeds_kernelInit k₀ cfg hw, fun hp => by cases hp⟩

theorem Attentive.mem_queued {m : Kernel × Phase} (h : Attentive m) {p t : ℕ} (hp : p < m.1.procCount)
    (hnew : (m.1.procs p).state ≠ .new) (ht : t < m.1.threadCount)
    (ho : (m.1.tcb t).ownerPid = (m.1.procs p).pid) (hready : (m.1.tcb t).state = .ready) :
    t ∈ m.1.sched.queued := by
  by_contra hq
  obtain ⟨q, hqn, hpid, hqnew⟩ := h.heeds t ht ⟨hready, hq⟩
  have hqp : q = p := h.tables.tables.pids q hqn p hp (hpid.trans ho)
  exact hnew (hqp ▸ hqnew)

/-- In a run each ready thread of a process that has arrived is in one queue, once, and the processor
is idle only if there is none. -/
theorem ready_threads_queued (k₀ : Kernel) (cfg : KernelConfig) {w : List ProcessSpec}
    (hw : ValidWorkload w) (n : ℕ) :
    let m := machineRun (kernelInit k₀ cfg w) n
    m.1.sched.queued.Nodup ∧
    ∀ p < m.1.procCount, (m.1.procs p).state ≠ .new → ∀ t < m.1.threadCount,
      (m.1.tcb t).ownerPid = (m.1.procs p).pid →
        ((m.1.tcb t).state = .ready → t ∈ m.1.sched.queued) ∧
        (m.2 = .execute → m.1.runningThread = none →
          (m.1.tcb t).state = .blocked ∨ (m.1.tcb t).state = .done) := by
  intro m
  have h : Attentive m := attentive_machineRun k₀ cfg hw n
  have ht := h.tables.tables
  refine ⟨ht.disciplined.nodup, fun p hp hnew t htn ho => ?_⟩
  have hqueued := h.mem_queued hp hnew htn ho
  refine ⟨hqueued, fun hph hidle => ?_⟩
  cases hs : (m.1.tcb t).state with
  | ready =>
    have hmem := hqueued hs
    rw [h.idle hph hidle] at hmem
    exact absurd hmem (Multiset.notMem_zero t)
  | running =>
    have hcur := (ht.disciplined.running t htn hs).1
    rw [runningThread_iff.mpr ⟨hcur, hs⟩] at hidle
    cases hidle
  | blocked => exact Or.inl rfl
  | done => exact Or.inr rfl

/-- Thread `4` of drone `2`, which has arrived in tick `2`, is ready and queued, once. -/
theorem ready_threads_queued_drones :
    let m := machineRun (kernelInit .zero ⟨.mlfq, 200, false, true⟩ droneWorkload) 46
    (m.1.tcb 4).state = .ready ∧ 4 ∈ m.1.sched.queued ∧ m.1.sched.queued.Nodup := by
  have hthere : let m := machineRun (kernelInit .zero ⟨.mlfq, 200, false, true⟩ droneWorkload) 46
      2 < m.1.procCount ∧ (m.1.procs 2).state ≠ .new ∧ 4 < m.1.threadCount ∧
        (m.1.tcb 4).ownerPid = (m.1.procs 2).pid ∧ (m.1.tcb 4).state = .ready := by
    intro m
    decide +kernel
  have h := ready_threads_queued .zero ⟨.mlfq, 200, false, true⟩ valid_droneWorkload 46
  generalize machineRun (kernelInit .zero ⟨.mlfq, 200, false, true⟩ droneWorkload) 46 = m at h hthere ⊢
  obtain ⟨hp, hnew, ht, ho, hready⟩ := hthere
  exact ⟨hready, (h.2 2 hp hnew 4 ht ho).1 hready, h.1⟩

end FleetOS
