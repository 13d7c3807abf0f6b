import FleetOS.KernelGraph
import FleetOS.WakeRelations
import Mathlib.Order.Interval.Finset.Nat

/-!
# Quantum charges

How many commands a thread has executed when `scheduler_tick` takes the processor from it. Most
parts of a tick dispatch nobody (`SameSlice`). A dispatch gives the full quantum, and each
`scheduler_tick` charges one unit for the command executed before it in the tick. When a thread
is dispatched because another one blocks, after the command of the tick has been executed, the
charge of that tick is made for a command of the thread that blocked (`Slice`).

So a thread is preempted after a full quantum if and only if it was not dispatched by a block, or
its quantum had run out before with nobody else to run (`full_slice_iff`).
-/

namespace FleetOS

open Scheduler (Frame)

/-! ## What leaves the current slice as it is -/

/-- From `s` to `s'` no thread is dispatched. -/
structure SameSlice (s s' : Scheduler) : Prop where
  quantum : s'.quantumRemaining = s.quantumRemaining
  queue : s'.currentQueue = s.currentQueue
  mode : s'.schedMode = s.schedMode
  running : ∀ c, s'.Yields c → s.Yields c

namespace SameSlice

variable {s s' s'' : Scheduler}

theorem refl (s : Scheduler) : SameSlice s s := ⟨rfl, rfl, rfl, fun _ h => h⟩

theorem trans (h : SameSlice s s') (h' : SameSlice s' s'') : SameSlice s s'' :=
  ⟨h'.quantum.trans h.quantum, h'.queue.trans h.queue, h'.mode.trans h.mode,
    fun c hc => h.running c (h'.running c hc)⟩

theorem fullQuantum (h : SameSlice s s') : s'.fullQuantum = s.fullQuantum := by
  unfold Scheduler.fullQuantum
  rw [h.mode, h.queue]

theorem setTcb (s : Scheduler) (t : ℕ) {f : TCB → TCB}
    (hf : (f (s.tcb t)).state = .running → (s.tcb t).state = .running) :
    SameSlice s (s.setTcb t f) := by
  refine ⟨rfl, rfl, rfl, fun c hc => ⟨hc.1, ?_⟩⟩
  have hr := hc.2
  rw [Scheduler.setTcb_tcb] at hr
  split_ifs at hr with hct
  · exact hct ▸ hf hr
  · exact hr

/-- The state that is written is not `running`. -/
theorem stop (s : Scheduler) (t : ℕ) {f : TCB → TCB} (hf : (f (s.tcb t)).state ≠ .running) :
    SameSlice s (s.setTcb t f) :=
  setTcb s t fun hr => absurd hr hf

theorem schedulerAdd (s : Scheduler) (t : ℕ) : SameSlice s (schedulerAdd s t) := by
  have hregister : ∀ s : Scheduler, SameSlice s (s.register t) := by
    intro s
    unfold Scheduler.register
    split_ifs <;> exact ⟨rfl, rfl, rfl, fun _ h => h⟩
  unfold FleetOS.schedulerAdd
  split
  · split_ifs
    · exact .refl s
    · exact .refl s
    · have h₁ : SameSlice s (s.setRr (s.rr.push t)) := ⟨rfl, rfl, rfl, fun _ h => h⟩
      exact (h₁.trans (stop _ t ThreadState.noConfusion)).trans (hregister _)
  · dsimp only
    split_ifs
    · exact .refl s
    · have h₁ : SameSlice s (s.setMlfq (s.tcb t).queueLevel
          (queuePush (s.mlfq (s.tcb t).queueLevel) t)) := ⟨rfl, rfl, rfl, fun _ h => h⟩
      exact (h₁.trans (stop _ t ThreadState.noConfusion)).trans (hregister _)

theorem removeQueued (s : Scheduler) (t : ℕ) : SameSlice s (removeQueued s t) := by
  unfold FleetOS.removeQueued
  repeat' split
  all_goals exact ⟨rfl, rfl, rfl, fun _ h => h⟩

theorem schedulerTerminate (s : Scheduler) (t : ℕ) : SameSlice s (schedulerTerminate s t) := by
  set s₀ := if s.currentThread = some t then { s with currentThread := none } else s with hs₀
  have h₀ : SameSlice s s₀ := by
    rw [hs₀]
    split_ifs
    · exact ⟨rfl, rfl, rfl, fun c hc => by cases hc.1⟩
    · exact .refl s
  exact (h₀.trans (removeQueued s₀ t)).trans
    (stop (f := fun c => { c with state := .done }) _ t ThreadState.noConfusion)

theorem boostQueue (i : ℤ) : ∀ (fuel : ℕ) (s : Scheduler), SameSlice s (boostQueue i fuel s)
  | 0, s => .refl s
  | fuel + 1, s => by
    rw [Scheduler.boostQueue_succ]
    split_ifs
    · exact .refl s
    · have h₀ : SameSlice s (s.setMlfq i (s.mlfq i).pop) := ⟨rfl, rfl, rfl, fun _ h => h⟩
      have h₁ : SameSlice s (s.boostPop i) :=
        h₀.trans (setTcb (f := fun c => { c with mlfqLevel := 0 }) _ _ fun h => h)
      have h₂ : SameSlice (s.boostPop i) (s.boostStep i) := ⟨rfl, rfl, rfl, fun _ h => h⟩
      exact (h₁.trans h₂).trans (boostQueue i fuel _)

theorem schedulerPriorityBoost (s : Scheduler) (tick : ℤ) :
    SameSlice s (schedulerPriorityBoost s tick) := by
  unfold FleetOS.schedulerPriorityBoost
  split
  · exact .refl s
  · have h₀ : SameSlice s { s with
        lastBoostTick := tick, priorityBoostCount := s.priorityBoostCount + 1 } :=
      ⟨rfl, rfl, rfl, fun _ h => h⟩
    exact (h₀.trans (boostQueue 1 _ _)).trans (boostQueue 2 _ _)

theorem schedulerUnblock (s : Scheduler) (t : ℕ) :
    SameSlice s (schedulerUnblock (s.setTcb t threadUnblock) t) := by
  refine (SameSlice.setTcb s t fun hr => ?_).trans (.schedulerAdd _ t)
  unfold threadUnblock at hr
  split_ifs at hr
  exact hr

end SameSlice

/-! ### The parts of the kernel -/

theorem threadRelation_sameSlice : ThreadRelation fun k k' => SameSlice k.sched k'.sched where
  trans := SameSlice.trans
  same h := h.sched ▸ .refl _

theorem sameSlice_unblockThread (k : Kernel) (t : ℕ) :
    SameSlice k.sched (unblockThread k t).sched := by
  rw [sched_unblockThread]
  exact .schedulerUnblock k.sched t

theorem wakeRelation_sameSlice : WakeRelation fun k k' => SameSlice k.sched k'.sched :=
  ⟨threadRelation_sameSlice, fun {k t} _ _ => sameSlice_unblockThread k t⟩

theorem serveRelation_sameSlice : ServeRelation fun k k' => SameSlice k.sched k'.sched where
  toThreadRelation := threadRelation_sameSlice
  done k t := .stop (f := fun c => { c with state := .done }) k.sched t ThreadState.noConfusion
  terminate k _ := .refl k.sched
  serve {k _ t} _ _ _ := (sameSlice_unblockThread k t).trans (.setTcb _ t fun hr => hr)

/-! ## Dispatches -/

/-- The quantum of the running thread runs out at this tick, and there is a thread to run. In
feedback mode the thread that is demoted is one. -/
def Scheduler.Expires (s : Scheduler) : Prop :=
  s.quantumRemaining - 1 ≤ 0 ∧ (s.schedMode = .rr → s.rr.count ≠ 0)

instance (s : Scheduler) : Decidable s.Expires :=
  inferInstanceAs (Decidable (_ ∧ _))

/-- A thread that runs has the full quantum. -/
def Scheduler.Refilled (s : Scheduler) : Prop :=
  ∀ c, s.Yields c → s.quantumRemaining = s.fullQuantum

theorem SameSlice.refilled {s s' : Scheduler} (h : SameSlice s s') (hr : s.Refilled) :
    s'.Refilled := fun c hc => by
  rw [h.quantum, h.fullQuantum]
  exact hr c (h.running c hc)

/-- With no thread running, `scheduler_next` dispatches one or leaves it so. -/
theorem refilled_schedulerNext {s : Scheduler} {n : ℕ} (h : s.Sound n) (hidle : ∀ c, ¬s.Yields c) :
    (schedulerNext s).Refilled := by
  rcases Scheduler.schedulerNext_dispatches h with ⟨-, he⟩ | ⟨t, sw, hq⟩
  · rw [he]
    exact fun c hc => absurd hc (hidle c)
  · exact fun _ _ => hq

/-- When a thread blocks, the thread that follows gets its full quantum. -/
theorem refilled_blockThread {k : Kernel} {n t : ℕ} (h : k.sched.Disciplined n)
    (hcur : k.sched.currentThread = some t) (hrun : (k.tcb t).state = .running)
    (reason : BlockReason) : (blockThread k t reason).sched.Refilled := by
  obtain ⟨w, -, -⟩ :=
    Scheduler.withdrawn_blockCurrent h.toSound hcur (h.current t hcur).1 reason
  rw [sched_blockThread hrun, Scheduler.schedulerBlock_current hcur]
  refine refilled_schedulerNext (w.sound h.toSound) fun c hc => ?_
  obtain ⟨hct, hc'⟩ := w.current_ne hc.1
  rw [hcur] at hc'
  exact hct (Option.some.inj hc').symm

/-- With nobody running, a charge leads to no thread with less than its full quantum. -/
theorem refilled_chargeQuantum {s : Scheduler} {n : ℕ} (h : s.Disciplined n)
    (hidle : ∀ c, ¬s.Yields c) : (chargeQuantum s).Refilled := by
  rcases Option.eq_none_or_eq_some s.currentThread with hcur | ⟨c, hcur⟩
  · rw [chargeQuantum_of_none hcur]
    exact refilled_schedulerNext h.toSound hidle
  · set s₀ : Scheduler := { s with quantumRemaining := s.quantumRemaining - 1 }
    have hf : Frame s s₀ n ∅ := h.congr rfl rfl rfl rfl rfl rfl
    have h₀ := hf.disciplined
    have hdem : demoteCurrent s₀ c = s₀ := if_neg fun hd => hidle c ⟨hcur, hd.2⟩
    rw [chargeQuantum_of_some hcur, hdem]
    split_ifs
    · exact refilled_schedulerNext h₀.toSound hidle
    · exact fun u hu => absurd hu (hidle u)

/-- The running thread is charged one tick, or a thread gets the processor. -/
theorem chargeQuantum_cases {s : Scheduler} {n : ℕ} (h : s.Disciplined n) :
    (¬s.Expires ∧ chargeQuantum s = { s with quantumRemaining := s.quantumRemaining - 1 }) ∨
      ((∀ c, s.Yields c → s.Expires) ∧ (chargeQuantum s).Refilled) := by
  by_cases hrun : ∃ c, s.Yields c
  · obtain ⟨c, hcur, hstate⟩ := hrun
    set s₀ : Scheduler := { s with quantumRemaining := s.quantumRemaining - 1 }
    have hf : Frame s s₀ n ∅ := h.congr rfl rfl rfl rfl rfl rfl
    have h₀ := hf.disciplined
    have hc := h₀.current_lt c hcur
    rw [chargeQuantum_of_some hcur]
    by_cases hq : s.quantumRemaining - 1 ≤ 0
    · rw [if_pos hq]
      by_cases hm : s.schedMode = .mlfq
      · have d := Scheduler.demoted h₀.toSound hm hc hstate
        refine Or.inr ⟨fun _ _ => ⟨hq, fun hrr => absurd (hm.symm.trans hrr) (by decide)⟩, ?_⟩
        rcases Scheduler.schedulerNext_dispatches (d.sound h₀.toSound hc (h₀.current c hcur).1) with
          ⟨hnone, -⟩ | ⟨t, -, hfull⟩
        · rw [d.queued] at hnone
          exact absurd hnone Multiset.cons_ne_zero
        · exact fun _ _ => hfull
      · have hdem : demoteCurrent s₀ c = s₀ := if_neg fun hd => hm hd.1
        have hrr : s₀.schedMode = .rr := (by cases hs : s.schedMode <;> first | rfl | exact absurd hs hm)
        rw [hdem]
        by_cases hcount : s.rr.count = 0
        · have he : schedulerNext s₀ = s₀ := by
            have hcount₀ : s₀.rr.count = 0 := hcount
            simp only [schedulerNext, hrr, hcount₀, if_true]
          exact Or.inl ⟨fun hx => hx.2 hrr hcount, he⟩
        · refine Or.inr ⟨fun _ _ => ⟨hq, fun _ => hcount⟩, ?_⟩
          rcases Scheduler.schedulerNext_dispatches h₀.toSound with ⟨hnone, -⟩ | ⟨t, -, hfull⟩
          · rw [Scheduler.queued_rr hrr, Multiset.coe_eq_zero, RingBuffer.toList_eq_nil] at hnone
            exact absurd hnone hcount
          · exact fun _ _ => hfull
    · rw [if_neg hq]
      exact Or.inl ⟨fun hx => hq hx.1, rfl⟩
  · have hidle : ∀ c, ¬s.Yields c := fun c hc => hrun ⟨c, hc⟩
    exact Or.inr ⟨fun c hc => absurd hc (hidle c), refilled_chargeQuantum h hidle⟩

/-! ## Steps -/

/-- `scheduler_tick` takes the processor from the running thread `c`. -/
def Preempts (m : Kernel × Phase) (c : ℕ) : Prop :=
  m.2 = .schedTick ∧ m.1.runningThread = some c ∧ m.1.sched.Expires

/-- Thread `c` gets the processor. A thread that is preempted may be the next to get it. -/
def Dispatches (m : Kernel × Phase) (c : ℕ) : Prop :=
  (machineStep m).1.runningThread = some c ∧ (m.1.runningThread = some c → Preempts m c)

/-- A thread that is dispatched in this part of the tick follows one that blocks. -/
def Late (m : Kernel × Phase) : Prop := m.2 = .execute ∨ m.2 = .pageFault

instance (m : Kernel × Phase) (c : ℕ) : Decidable (Preempts m c) :=
  inferInstanceAs (Decidable (_ ∧ _ ∧ _))

instance (m : Kernel × Phase) (c : ℕ) : Decidable (Dispatches m c) :=
  inferInstanceAs (Decidable (_ ∧ _))

instance (m : Kernel × Phase) : Decidable (Late m) :=
  inferInstanceAs (Decidable (_ ∨ _))

/-- What a part of a tick does to the slice of the running thread. -/
inductive SliceStep (m : Kernel × Phase) : Prop
  | same (hp : m.2 ≠ .schedTick) (hs : SameSlice m.1.sched (machineStep m).1.sched)
  | charged (hp : m.2 = .schedTick) (hn : ¬m.1.sched.Expires)
      (hs : SameSlice { m.1.sched with quantumRemaining := m.1.sched.quantumRemaining - 1 }
        (machineStep m).1.sched)
  | refilled (hp : Late m ∨ m.2 = .dispatch ∨ m.2 = .schedTick)
      (hr : (machineStep m).1.sched.Refilled)
      (hd : ∀ c, m.1.runningThread = some c → (machineStep m).1.runningThread = some c → Preempts m c)

/-- A running thread that blocks no longer runs, and what runs then has its full quantum. -/
def GivesWay (k' : Kernel) (t : ℕ) : Prop :=
  k'.sched.Refilled ∧ (k'.tcb t).state = .blocked

theorem givesWay_blockThread {k k₁ : Kernel} (hs : k₁.sched = k.sched) {n t : ℕ}
    (h : k.sched.Disciplined n) (hrun : k.sched.Yields t) (reason : BlockReason) :
    GivesWay (blockThread k₁ t reason) t := by
  rw [← hs] at h hrun
  exact ⟨refilled_blockThread h hrun.1 hrun.2 reason, (frame_blockThread h hrun.1 hrun.2 reason).2.1⟩

theorem GivesWay.step {m : Kernel × Phase} {t : ℕ} (h : GivesWay (machineStep m).1 t) (hp : Late m)
    (hrun : m.1.runningThread = some t) : SliceStep m := by
  refine .refilled (Or.inl hp) h.1 fun c hc hc' => ?_
  obtain rfl : t = c := Option.some.inj (hrun.symm.trans hc)
  have hr := (runningThread_some hc').2
  rw [h.2] at hr
  cases hr

/-- A command leaves its thread running, or the thread gives way. -/
theorem sameSlice_executeCommand {k : Kernel} (h : Tables k) {t : ℕ} (hrun : k.sched.Yields t) :
    SameSlice k.sched (executeCommand k t).sched ∨ GivesWay (executeCommand k t) t := by
  have hx := commandEffect k t
  generalize executeCommand k t = k' at hx ⊢
  cases hx with
  | @ran k₁ hk _ =>
    have h₁ : SameSlice k₁.sched (k₁.sched.setTcb t threadExecute) :=
      .setTcb k₁.sched t fun hr => (state_threadExecute _).symm.trans hr
    exact Or.inl (hk.sched ▸ h₁.trans (wakeRelation_sameSlice.wakeThreads (k₁.setTcb t threadExecute) _))
  | refused hk _ _ _ => exact Or.inr (givesWay_blockThread hk.sched h.disciplined hrun _)
  | @acquired k₁ hk _ _ =>
    have h₁ : SameSlice k₁.sched (k₁.sched.setTcb t TCB.advance) := .setTcb k₁.sched t fun hr => hr
    exact Or.inl (hk.sched ▸ h₁)
  | @wrote k₁ hk _ _ pid path =>
    obtain ⟨hd, hyields⟩ := hk.advance h hrun
    rw [registerIo_rest]
    exact Or.inr (givesWay_blockThread (k := k₁.setTcb t TCB.advance) rfl hd hyields .ioBlock)

theorem sliceStep_schedTick {k : Kernel} (h : Tables k) : SliceStep (k, .schedTick) := by
  set s := k.sched with hs
  set s₀ := if s.schedMode = .mlfq ∧ s.lastBoostTick = 0 then
    { s with lastBoostTick := k.currentTick } else s with hs₀
  have hsame : s₀ = { s with lastBoostTick := s₀.lastBoostTick } := by
    rw [hs₀]
    split_ifs <;> rfl
  have h₀ : s₀.Disciplined k.threadCount := by
    have hf : Frame s { s with lastBoostTick := s₀.lastBoostTick } k.threadCount ∅ :=
      h.disciplined.congr rfl rfl rfl rfl rfl rfl
    rw [hsame]
    exact hf.disciplined
  have he : (machineStep (k, .schedTick)).1.sched =
      if s₀.schedMode = .mlfq ∧ 30 ≤ k.currentTick - s₀.lastBoostTick then
        schedulerPriorityBoost (chargeQuantum s₀) k.currentTick
      else chargeQuantum s₀ := rfl
  have hboost : SameSlice (chargeQuantum s₀) (machineStep (k, .schedTick)).1.sched := by
    rw [he]
    split_ifs
    · exact .schedulerPriorityBoost _ _
    · exact .refl _
  have hexp : s₀.Expires ↔ s.Expires := by
    rw [hsame]
    rfl
  rcases chargeQuantum_cases h₀ with ⟨hn, hc⟩ | ⟨hx, hr⟩
  · refine .charged rfl (hexp.not.mp hn) ?_
    rw [hc] at hboost
    refine SameSlice.trans ?_ hboost
    rw [hsame]
    exact ⟨rfl, rfl, rfl, fun _ hy => hy⟩
  · refine .refilled (Or.inr (Or.inr rfl)) (hboost.refilled hr) fun c hc _ => ⟨rfl, hc, ?_⟩
    refine hexp.mp (hx c ?_)
    rw [hsame]
    exact runningThread_iff.mp hc

theorem sliceStep_execute {k : Kernel} (h : Tables k) : SliceStep (k, .execute) := by
  cases hrun : k.runningThread with
  | none =>
    refine .same nofun ?_
    simp only [machineStep, hrun]
    exact .refl k.sched
  | some t =>
    have he : (machineStep (k, .execute)).1 = executeCommand k t := by
      simp only [machineStep, hrun]
    rcases sameSlice_executeCommand h (runningThread_iff.mp hrun) with hs | hg
    · exact .same nofun (he ▸ hs)
    · exact GivesWay.step (he ▸ hg) (Or.inl rfl) hrun

theorem sliceStep_pageFault {k : Kernel} (h : Tables k) : SliceStep (k, .pageFault) := by
  rcases triggerPageFault_cases k with
    ⟨pcb, addr, he⟩ | he | ⟨t, p, pcb, addr, page, hrun, -, -, -, -, he⟩
  · refine .same nofun ?_
    simp only [machineStep, he]
    exact .refl k.sched
  · refine .same nofun ?_
    simp only [machineStep, he]
    exact .refl k.sched
  · set k₁ : Kernel := { k with mem := (memAccess k.mem pcb addr).mem }
    have hg : GivesWay (blockThread k₁ t .pageFault) t :=
      givesWay_blockThread (k := k) (by rfl) h.disciplined (runningThread_iff.mp hrun) _
    have hs := (calm_registerPageFault (blockThread k₁ t .pageFault) (k.procs p).pid page).2
    rw [← he] at hs
    refine GivesWay.step (t := t) ⟨?_, ?_⟩ (Or.inr rfl) hrun
    · simp only [machineStep, hs]
      exact hg.1
    · simp only [machineStep, Kernel.tcb, hs]
      exact hg.2

theorem sliceStep {m : Kernel × Phase} (h : MachineTables m) : SliceStep m := by
  obtain ⟨k, ph⟩ := m
  have ht : Tables k := h.tables
  cases ph with
  | top =>
    refine .same (by simp) ?_
    simp only [machineStep]
    split_ifs <;> exact .refl k.sched
  | arrivals =>
    exact .same (by simp) (threadRelation_sameSlice.checkArrivals (fun k _ => .refl k.sched)
      (fun k t => .schedulerAdd k.sched t) k)
  | ioEvents => exact .same (by simp) (wakeRelation_sameSlice.foldl wakeRelation_sameSlice.completeIoEvent _ k)
  | pageFaults => exact .same (by simp) (wakeRelation_sameSlice.foldl wakeRelation_sameSlice.completePageFault _ k)
  | compact => exact .same (by simp) (.refl k.sched)
  | dispatch =>
    cases hrun : k.runningThread with
    | none =>
      have hidle : ∀ c, ¬k.sched.Yields c := fun c hc => by
        rw [runningThread_iff.mpr hc] at hrun
        cases hrun
      refine .refilled (Or.inr (Or.inl rfl)) ?_ fun c hc => absurd (runningThread_iff.mp hc) (hidle c)
      simp only [machineStep, ensureRunning, hrun, Option.isSome_none, Bool.false_eq_true, if_false]
      exact refilled_schedulerNext ht.disciplined.toSound hidle
    | some t =>
      refine .same (by simp) ?_
      simp only [machineStep, ensureRunning, hrun, Option.isSome_some, if_true]
      exact .refl k.sched
  | execute => exact sliceStep_execute ht
  | retire t => exact .same (by simp) (serveRelation_sameSlice.retire (.schedulerTerminate k.sched t))
  | detect => exact .same (by simp) (serveRelation_sameSlice.detectDeadlock k)
  | crash => exact .same (by simp) (serveRelation_sameSlice.injectCrash k)
  | pageFault => exact sliceStep_pageFault ht
  | schedTick => exact sliceStep_schedTick ht
  | waitTime => exact .same (by simp) (.refl k.sched)
  | snapshot =>
    refine .same (by simp) ?_
    have hs : (machineStep (k, .snapshot)).1.sched = k.sched := sched_snapshotSync k
    rw [hs]
    exact .refl k.sched
  | wakeWaiters => exact .same (by simp) (wakeRelation_sameSlice.wakeBufferWaiters k)
  | finish =>
    refine .same (by simp) ?_
    simp only [machineStep]
    split_ifs <;> exact .refl k.sched
  | halted => exact .same (by simp) (.refl k.sched)

/-! ## Runs -/

/-- In how many ticks between the parts `d` and `n` of a run the thread has executed a command. -/
def executed (run : ℕ → Kernel × Phase) (c d n : ℕ) : ℕ :=
  ((Finset.Ioo d n).filter fun i => (run i).2 = .execute ∧ (run i).1.runningThread = some c).card

theorem executed_succ (run : ℕ → Kernel × Phase) (c : ℕ) {d n : ℕ} (hdn : d < n) :
    executed run c d (n + 1) = executed run c d n +
      if (run n).2 = .execute ∧ (run n).1.runningThread = some c then 1 else 0 := by
  have hset : Finset.Ioo d (n + 1) = insert n (Finset.Ioo d n) := by
    ext i
    simp only [Finset.mem_insert, Finset.mem_Ioo]
    omega
  unfold executed
  rw [hset, Finset.filter_insert]
  split_ifs
  · exact Finset.card_insert_of_notMem fun hn => by simp at hn
  · rfl

theorem executed_self (run : ℕ → Kernel × Phase) (c d : ℕ) : executed run c d (d + 1) = 0 := by
  have hset : Finset.Ioo d (d + 1) = ∅ := by
    ext i
    simp only [Finset.mem_Ioo, Finset.notMem_empty, iff_false]
    omega
  rw [executed, hset]
  rfl

/-- The command of this tick has been executed, and its charge is still to come. -/
def Phase.owed : Phase → ℤ
  | .retire _ | .detect | .crash | .pageFault | .schedTick => 1
  | _ => 0

theorem owed_machineStep {m : Kernel × Phase} {c : ℕ} (hrun : m.1.runningThread = some c)
    (hp : m.2 ≠ .schedTick) : (machineStep m).2.owed =
      m.2.owed + if m.2 = .execute ∧ m.1.runningThread = some c then 1 else 0 := by
  obtain ⟨k, ph⟩ := m
  by_cases hx : ph = .execute
  · subst hx
    rw [if_pos ⟨rfl, hrun⟩]
    simp only [machineStep, hrun]
    rfl
  · rw [if_neg fun h => hx h.1, add_zero]
    cases ph with
    | execute => exact absurd rfl hx
    | schedTick => exact absurd rfl hp
    | top =>
      simp only [machineStep]
      split_ifs <;> rfl
    | finish =>
      simp only [machineStep]
      split_ifs <;> rfl
    | _ => rfl

theorem owed_schedTick {m : Kernel × Phase} (hp : m.2 = .schedTick) :
    (machineStep m).2.owed = m.2.owed - 1 := by
  obtain ⟨k, ph⟩ := m
  obtain rfl : ph = .schedTick := hp
  rfl

/-- After a dispatch only the charge of a late one is still to come in the tick. -/
theorem owed_dispatch {m : Kernel × Phase} (hp : Late m ∨ m.2 = .dispatch ∨ m.2 = .schedTick) :
    (machineStep m).2.owed = if Late m then 1 else 0 := by
  obtain ⟨k, ph⟩ := m
  rcases hp with (hp | hp) | hp | hp <;> cases hp
  · have hlate : Late (k, .execute) := Or.inl rfl
    rw [if_pos hlate]
    simp only [machineStep]
    split <;> rfl
  · rfl
  · rfl
  · rfl

/-- Part `d` of the run dispatched thread `c`, which has been running since. Each unit of its
quantum that is gone was charged for a command, and a late dispatch costs one more. -/
structure Slice (run : ℕ → Kernel × Phase) (c d n : ℕ) : Prop where
  lt : d < n
  dispatched : Dispatches (run d) c
  since : ∀ i, d < i → i < n → ¬Dispatches (run i) c
  charged : (executed run c d n : ℤ) + (run n).1.sched.quantumRemaining +
    (if Late (run d) then 1 else 0) = (run n).1.sched.fullQuantum + (run n).2.owed

variable {run : ℕ → Kernel × Phase} {c d n : ℕ}

/-- A part that does not dispatch `c` again executes as many of its commands as it takes from the
quantum and adds to what is owed. -/
theorem Slice.succ (h : Slice run c d n) (hnot : ¬Dispatches (run n) c)
    (hfull : (run (n + 1)).1.sched.fullQuantum = (run n).1.sched.fullQuantum)
    (hq : (run (n + 1)).1.sched.quantumRemaining - (run (n + 1)).2.owed +
        (if (run n).2 = .execute ∧ (run n).1.runningThread = some c then 1 else 0) =
      (run n).1.sched.quantumRemaining - (run n).2.owed) : Slice run c d (n + 1) := by
  refine ⟨h.lt.trans n.lt_succ_self, h.dispatched, fun i hdi hi => ?_, ?_⟩
  · rcases Nat.lt_succ_iff_lt_or_eq.mp hi with hi | rfl
    · exact h.since i hdi hi
    · exact hnot
  · have hc := h.charged
    rw [executed_succ run c h.lt, hfull]
    push_cast
    linarith

theorem Slice.start (hsucc : run (n + 1) = machineStep (run n)) (hd : Dispatches (run n) c)
    (hp : Late (run n) ∨ (run n).2 = .dispatch ∨ (run n).2 = .schedTick)
    (hr : (machineStep (run n)).1.sched.Refilled) : Slice run c n (n + 1) := by
  refine ⟨n.lt_succ_self, hd, fun i hni hi => absurd (hni.trans_le (Nat.lt_succ_iff.mp hi)) n.lt_irrefl,
    ?_⟩
  rw [executed_self, hsucc, owed_dispatch hp, hr c (runningThread_iff.mp hd.1)]
  push_cast
  omega

/-- Every running thread is in a slice. -/
theorem slice_succ (hm : MachineTables (run n)) (hsucc : run (n + 1) = machineStep (run n))
    (ih : ∀ c, (run n).1.runningThread = some c → ∃ d, Slice run c d n)
    (hrun : (run (n + 1)).1.runningThread = some c) : ∃ d, Slice run c d (n + 1) := by
  have hrun' : (machineStep (run n)).1.runningThread = some c := hsucc ▸ hrun
  cases sliceStep hm with
  | same hp hs =>
    have hold : (run n).1.runningThread = some c :=
      runningThread_iff.mpr (hs.running c (runningThread_iff.mp hrun'))
    obtain ⟨d, h⟩ := ih c hold
    refine ⟨d, h.succ (fun hd => hp (hd.2 hold).1) ?_ ?_⟩
    · rw [hsucc, hs.fullQuantum]
    · rw [hsucc, hs.quantum, owed_machineStep hold hp]
      ring
  | charged hp hn hs =>
    have hold : (run n).1.runningThread = some c :=
      runningThread_iff.mpr (hs.running c (runningThread_iff.mp hrun'))
    obtain ⟨d, h⟩ := ih c hold
    refine ⟨d, h.succ (fun hd => hn (hd.2 hold).2.2) ?_ ?_⟩
    · rw [hsucc, hs.fullQuantum]
      rfl
    · rw [hsucc, hs.quantum, if_neg fun hx => by rw [hp] at hx; cases hx.1]
      rw [owed_schedTick hp]
      dsimp only
      ring
  | refilled hp hr hd => exact ⟨n, Slice.start hsucc ⟨hrun', fun hold => hd c hold hrun'⟩ hp hr⟩

theorem slice_machineRun (k₀ : Kernel) (cfg : KernelConfig) {w : List ProcessSpec}
    (hw : ValidWorkload w) (n : ℕ) {c : ℕ}
    (hrun : (machineRun (kernelInit k₀ cfg w) n).1.runningThread = some c) :
    ∃ d, Slice (machineRun (kernelInit k₀ cfg w)) c d n := by
  induction n generalizing c with
  | zero =>
    have hcur : (kernelInit k₀ cfg w).sched.currentThread = none := (loading_kernelInit k₀ cfg hw).current
    exact absurd ((runningThread_some hrun).1.symm.trans hcur) (Option.some_ne_none c)
  | succ n ih =>
    exact slice_succ (tables_machineRun k₀ cfg hw n) (machineRun_succ _ n) (fun _ => ih) hrun

/-- A thread that is preempted has executed a command in as many ticks since it was dispatched as
its queue's quantum, unless it was dispatched by a block and its quantum runs out just now. -/
theorem full_slice_iff (k₀ : Kernel) (cfg : KernelConfig) {w : List ProcessSpec}
    (hw : ValidWorkload w) {run : ℕ → Kernel × Phase} (hrun : run = machineRun (kernelInit k₀ cfg w))
    {n c : ℕ} (hpre : Preempts (run n) c) :
    ∃ d < n, Dispatches (run d) c ∧ (∀ i, d < i → i < n → ¬Dispatches (run i) c) ∧
      ((run n).1.sched.fullQuantum ≤ executed run c d n ↔
        ¬Late (run d) ∨ (run n).1.sched.quantumRemaining ≤ 0) := by
  subst hrun
  obtain ⟨hp, hrunning, hq, -⟩ := hpre
  obtain ⟨d, h⟩ := slice_machineRun k₀ cfg hw n hrunning
  refine ⟨d, h.lt, h.dispatched, h.since, ?_⟩
  have hc := h.charged
  have howed : (machineRun (kernelInit k₀ cfg w) n).2.owed = 1 := by rw [hp]; rfl
  rw [howed] at hc
  by_cases hlate : Late (machineRun (kernelInit k₀ cfg w) d)
  · rw [if_pos hlate] at hc
    simp only [hlate, not_true_eq_false, false_or]
    constructor <;> intro <;> omega
  · rw [if_neg hlate] at hc
    simp only [hlate, not_false_eq_true, true_or, iff_true]
    omega

/-- Two threads that compute and one that writes first. -/
def sliceWorkload (first : CommandType) : List ProcessSpec :=
  [⟨0, [], .high, [], 0, 0, [⟨0, [first], 9⟩, ⟨1, [.compute], 9⟩, ⟨2, [.compute], 9⟩]⟩]

/-- The first thread, dispatched at the start of tick `0`, has executed four commands. -/
theorem full_slice_iff_compute :
    let run := machineRun (kernelInit .zero ⟨.rr, 0, false, false⟩ (sliceWorkload .compute))
    ∃ d < 59, Dispatches (run d) 0 ∧ (∀ i, d < i → i < 59 → ¬Dispatches (run i) 0) ∧
      ((run 59).1.sched.fullQuantum ≤ executed run 0 d 59 ↔
        ¬Late (run d) ∨ (run 59).1.sched.quantumRemaining ≤ 0) := by
  have hw : ValidWorkload (sliceWorkload .compute) := by decide
  have hpre : Preempts (machineRun (kernelInit .zero ⟨.rr, 0, false, false⟩
      (sliceWorkload .compute)) 59) 0 := by
    decide +kernel
  exact full_slice_iff .zero ⟨.rr, 0, false, false⟩ hw rfl hpre

/-- The second thread gets the processor when the first one writes, and loses it after three
commands. -/
theorem short_slice_after_block :
    let run := machineRun (kernelInit .zero ⟨.rr, 0, false, false⟩ (sliceWorkload .ioWrite))
    ValidWorkload (sliceWorkload .ioWrite) ∧ Preempts (run 59) 1 ∧ (run 59).1.currentTick = 3 ∧
      Dispatches (run 6) 1 ∧ (run 6).2 = .execute ∧ (run 6).1.currentTick = 0 ∧
      (∀ i < 59, 6 < i → ¬Dispatches (run i) 1) ∧ executed run 1 6 59 = 3 ∧
      (run 59).1.sched.fullQuantum = 4 := by
  refine ⟨by decide, ?_⟩
  decide +kernel

end FleetOS
