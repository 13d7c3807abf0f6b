import FleetOS.FeedbackBoosts
import FleetOS.Gauges
import FleetOS.ReadyThreads

/-!
# No ready thread starves

In a run nobody leaves the ready queues but to get the processor : the threads that block or end have it.
The threads of a process that is ended stay queued. So a queued thread waits for those in front of it
and, in feedback mode, for the next boost (`waitingRank`), a part of a tick makes no wait longer, and
`scheduler_tick` makes it shorter by a tick (`Serves`). Each ready thread of a process that has arrived
gets the processor within 128 ticks (`no_starvation_machineRun`).
-/

namespace FleetOS

namespace Scheduler

variable {s s' s'' : Scheduler} {n t u c : ℕ}

/-! ## Nobody is dispatched -/

/-- From `s` to `s'` nobody gets the processor, and nobody leaves the queues or waits longer. -/
structure Passive (s s' : Scheduler) : Prop where
  turn : Turn s s'
  queued : ∀ t ∈ s.queued, t ∈ s'.queued
  waits : ∀ t ∈ s.front.toList, Waits s s' t

namespace Passive

theorem of_grows (hg : Grows s s') (hq : ∀ t ∈ s.queued, t ∈ s'.queued) : Passive s s' :=
  ⟨.of_grows hg, hq, fun _ ht => hg.waits ht⟩

theorem refl (s : Scheduler) : Passive s s := .of_grows (.refl s) fun _ h => h

theorem trans (h : Passive s s') (h' : Passive s' s'') : Passive s s'' :=
  ⟨h.turn.trans h'.turn, fun t ht => h'.queued t (h.queued t ht),
    fun t ht => (h.waits t ht).trans (h'.waits t (h.waits t ht).place.mem)⟩

theorem setTcb (s : Scheduler) (t : ℕ) (f : TCB → TCB) : Passive s (s.setTcb t f) :=
  .of_grows (.setTcb s t f) fun _ h => h

end Passive

theorem mem_queued_rr (hm : s.schedMode = .rr) : t ∈ s.queued ↔ t ∈ s.front.toList := by
  rw [queued_rr hm, front_rr hm, Multiset.mem_coe]

theorem mem_queued_mlfq (hm : s.schedMode = .mlfq) : t ∈ s.queued ↔
    t ∈ (s.mlfq 0).toList ∨ t ∈ (s.mlfq 1).toList ∨ t ∈ (s.mlfq 2).toList := by
  rw [queued_mlfq hm]
  simp

theorem mem_queued_of_front (ht : t ∈ s.front.toList) : t ∈ s.queued := by
  cases hm : s.schedMode with
  | rr => exact (mem_queued_rr hm).mpr ht
  | mlfq => exact (mem_queued_mlfq hm).mpr (Or.inl (front_mlfq hm ▸ ht))

theorem mem_queued_push (hm : s.schedMode = .mlfq) (l : ℤ) (u : ℕ) (ht : t ∈ s.queued) :
    t ∈ (s.setMlfq l (queuePush (s.mlfq l) u)).queued := by
  have hlevel : ∀ j, t ∈ (s.mlfq j).toList → t ∈ ((s.setMlfq l (queuePush (s.mlfq l) u)).mlfq j).toList := by
    intro j hj
    rw [setMlfq_mlfq]
    split_ifs with hjl
    · obtain ⟨back, hback⟩ := toList_queuePush (s.mlfq l) u
      rw [hback]
      exact List.mem_append_left back (hjl ▸ hj)
    · exact hj
  rw [mem_queued_mlfq hm] at ht
  rw [mem_queued_mlfq (s := s.setMlfq l _) hm]
  exact ht.imp (hlevel 0) (Or.imp (hlevel 1) (hlevel 2))

theorem passive_schedulerAdd (s : Scheduler) (u : ℕ) : Passive s (schedulerAdd s u) := by
  refine .of_grows (.schedulerAdd s u) fun t ht => ?_
  have hgrow := Grows.schedulerAdd s u
  cases hm : s.schedMode with
  | rr =>
    obtain ⟨back, hback⟩ := hgrow.back
    rw [mem_queued_rr hm] at ht
    rw [mem_queued_rr (hgrow.mode.trans hm), hback]
    exact List.mem_append_left back ht
  | mlfq =>
    have hregister : ∀ s : Scheduler, (s.register u).queued = s.queued := by
      intro s
      unfold Scheduler.register
      split_ifs <;> rfl
    simp only [schedulerAdd, hm]
    split_ifs
    · exact ht
    · rw [hregister]
      exact mem_queued_push hm _ u ht

/-- A thread that ends is not queued. -/
theorem passive_schedulerTerminate (h : s.Disciplined n) (hu : u ∉ s.queued) :
    Passive s (schedulerTerminate s u) := by
  obtain ⟨w, -⟩ := withdrawn_schedulerTerminate h.rr_wf h.mlfq_wf u
  refine ⟨.of_slice (.schedulerTerminate s u), fun t ht => ?_, fun t ht => ?_⟩
  · rw [w.queued, Multiset.erase_of_notMem hu]
    exact ht
  · have htu : t ≠ u := fun he => hu (he ▸ mem_queued_of_front ht)
    unfold schedulerTerminate
    set s₀ := if s.currentThread = some u then { s with currentThread := none } else s with hs₀
    have h₀ : Waits s s₀ t ∧ s₀.rr = s.rr ∧ s₀.mlfq = s.mlfq := by
      rw [hs₀]
      split_ifs
      · exact ⟨⟨rfl, .refl ht, s.remaining_pos⟩, rfl, rfl⟩
      · exact ⟨(Grows.refl s).waits ht, rfl, rfl⟩
    obtain ⟨hw, hrr, hmlfq⟩ := h₀
    have hr := hw.trans (waits_removeQueued (hrr ▸ h.rr_wf) (hmlfq ▸ h.mlfq_wf) hw.place.mem htu)
    exact hr.trans ((Grows.setTcb _ u _).waits hr.place.mem)

/-! ## Somebody is dispatched -/

/-- From `s` to `s'` every queued thread gets the processor, or it stays queued and waits less by `k`
if it is in the first queue. -/
structure Serves (s s' : Scheduler) (k : ℕ) : Prop where
  turn : Turn s s'
  queued : ∀ t ∈ s.queued, s'.Yields t ∨ t ∈ s'.queued ∧ (t ∈ s.front.toList → Stands s s' t k)

theorem Passive.serves (h : Passive s s') : Serves s s' 0 :=
  ⟨h.turn, fun t ht => Or.inr ⟨h.queued t ht, fun hf => (h.waits t hf).stands⟩⟩

theorem Passive.then_serves {k : ℕ} (h : Passive s s') (h' : Serves s' s'' k) : Serves s s'' k := by
  refine ⟨h.turn.trans h'.turn, fun t ht => (h'.queued t (h.queued t ht)).imp_right fun hs => ⟨hs.1, ?_⟩⟩
  exact fun hf => (h.waits t hf).then_stands (hs.2 (h.waits t hf).place.mem)

/-- A queued thread that is the current one after a switch runs. -/
theorem yields_schedulerNext (h : s.Sound n) (ht : t ∈ s.queued)
    (hcur : (schedulerNext s).currentThread = some t) : (schedulerNext s).Yields t := by
  rcases schedulerNext_cases h with ⟨hq, -⟩ | ⟨u, sw⟩
  · rw [hq] at ht
    exact absurd ht (Multiset.notMem_zero t)
  · obtain rfl : u = t := Option.some.inj (sw.current.symm.trans hcur)
    exact ⟨hcur, by simp [sw.tcb]⟩

theorem serves_schedulerNext (h : s.Sound n) : Serves s (schedulerNext s) s.remaining := by
  refine ⟨.next h, fun t ht => ?_⟩
  rcases queued_next h ht with hcur | hq
  · exact Or.inl (yields_schedulerNext h ht hcur)
  · by_cases hf : t ∈ s.front.toList
    · rcases next_stands h hf with hcur | hs
      · exact Or.inl (yields_schedulerNext h ht hcur)
      · exact Or.inr ⟨hq, fun _ => hs⟩
    · exact Or.inr ⟨hq, fun hf' => absurd hf' hf⟩

theorem Serves.mono {k k' : ℕ} (h : Serves s s' k) (hk : k' ≤ k) : Serves s s' k' :=
  ⟨h.turn, fun t ht => (h.queued t ht).imp_right fun hs => ⟨hs.1, fun hf => (hs.2 hf).mono hk⟩⟩

theorem serves_schedulerBlock (h : s.Disciplined n) (hcur : s.currentThread = some u) (reason : BlockReason) :
    Serves s (schedulerBlock (s.setTcb u fun c => threadBlock c reason) u) 0 := by
  obtain ⟨w, -, -⟩ := withdrawn_blockCurrent h.toSound hcur (h.current u hcur).1 reason
  set s₁ := blockCurrent (s.setTcb u fun c => threadBlock c reason) u with hs₁
  obtain ⟨hmode, hnone, -, hrr, hmlfq⟩ := blockCurrent_rest (s.setTcb u fun c => threadBlock c reason) u
  have hquantum : s₁.quantumRemaining = s.quantumRemaining := by
    rw [hs₁, blockCurrent]
    split_ifs <;> rfl
  have hpassive : Passive s s₁ := by
    refine ⟨⟨hmode, fun hq => hquantum ▸ hq⟩, fun t ht => ?_, fun t ht => ⟨hmode, ?_, ?_⟩⟩
    · rw [queued_congr hmode hrr hmlfq]
      exact ht
    · rw [front, front, hmode, hrr, hmlfq]
      exact .refl ht
    · rw [remaining, hnone]
      exact s.remaining_pos
  rw [schedulerBlock_current hcur]
  exact hpassive.then_serves ((serves_schedulerNext (w.sound h.toSound)).mono (Nat.zero_le _))

/-! ## The ticks -/

theorem passive_demoteCurrent (h : s.Disciplined n) (hcur : s.currentThread = some c) :
    Passive s (demoteCurrent s c) ∧ (demoteCurrent s c).Sound n := by
  by_cases hd : s.schedMode = .mlfq ∧ (s.tcb c).state = .running
  · have hc := h.current_lt c hcur
    have d := demoted h.toSound hd.1 hc hd.2
    refine ⟨.of_grows (.demoteCurrent s c) fun t ht => ?_, d.sound h.toSound hc (h.current c hcur).1⟩
    rw [d.queued]
    exact Multiset.mem_cons_of_mem ht
  · have he : demoteCurrent s c = s := if_neg hd
    rw [he]
    exact ⟨.refl s, h.toSound⟩

theorem serves_chargeQuantum (h : s.Disciplined n) : Serves s (chargeQuantum s) 1 := by
  rcases Option.eq_none_or_eq_some s.currentThread with hcur | ⟨c, hcur⟩
  · rw [chargeQuantum_of_none hcur]
    exact (serves_schedulerNext h.toSound).mono s.remaining_pos
  · rw [chargeQuantum_of_some hcur]
    set s₀ : Scheduler := { s with quantumRemaining := s.quantumRemaining - 1 } with hs₀
    have hf : Frame s s₀ n ∅ := h.congr rfl rfl rfl rfl rfl rfl
    have hrem : s.remaining = max 1 s.quantumRemaining.toNat := by rw [remaining, hcur]
    have hrem₀ : s₀.remaining = max 1 (s.quantumRemaining - 1).toNat := by
      rw [remaining, show s₀.currentThread = some c from hcur]
    have hturn : Turn s s₀ := by
      refine ⟨rfl, fun hq => ?_⟩
      change s.quantumRemaining - 1 ≤ _
      omega
    have hwaits : ∀ t ∈ s.front.toList, Waits s s₀ t := fun t ht => ⟨rfl, .refl ht, by omega⟩
    split_ifs with hq
    · obtain ⟨hp, hsound⟩ := passive_demoteCurrent hf.disciplined (c := c) hcur
      have hp₀ : Passive s s₀ := ⟨hturn, fun _ ht => ht, hwaits⟩
      exact (hp₀.trans hp).then_serves ((serves_schedulerNext hsound).mono (remaining_pos _))
    · refine ⟨hturn, fun t ht => Or.inr ⟨ht, fun hf => ⟨rfl, .refl hf, ?_⟩⟩⟩
      have hidx : s₀.front = s.front := rfl
      have hmode : s₀.schedMode = s.schedMode := rfl
      unfold frontRank
      rw [hidx, hmode, hrem, hrem₀]
      omega

theorem state_boostQueue (i : ℤ) : ∀ (fuel : ℕ) (s : Scheduler) (u : ℕ),
    ((boostQueue i fuel s).tcb u).state = (s.tcb u).state
  | 0, _, _ => rfl
  | fuel + 1, s, u => by
    rw [boostQueue_succ]
    split_ifs
    · rfl
    · rw [state_boostQueue i fuel]
      change ((s.boostPop i).tcb u).state = _
      rw [boostPop, setTcb_tcb]
      split_ifs with hu
      · rw [hu]
        rfl
      · rfl

theorem Yields.priorityBoost (h : s.Yields t) (tick : ℤ) : (schedulerPriorityBoost s tick).Yields t := by
  refine ⟨(Grows.priorityBoost s tick).current.trans h.1, ?_⟩
  unfold schedulerPriorityBoost
  split
  · exact h.2
  · exact ((state_boostQueue 2 _ _ t).trans (state_boostQueue 1 _ _ t)).trans h.2

/-- `scheduler_tick` makes every wait shorter. -/
theorem serves_schedulerTick (h : s.Disciplined n) (tick : ℤ) : Serves s (schedulerTick s tick) 1 := by
  obtain ⟨b, hcase⟩ := schedulerTick_cases s tick
  set s₀ : Scheduler := { s with lastBoostTick := b }
  have hf : Frame s s₀ n ∅ := h.congr rfl rfl rfl rfl rfl rfl
  have hp : Passive s s₀ := .of_grows (.of_eq rfl rfl rfl rfl rfl) fun _ ht => ht
  have hcharge := hp.then_serves (serves_chargeQuantum hf.disciplined)
  rcases hcase with he | ⟨hm, he⟩ <;> rw [he]
  · exact hcharge
  · have hboost := Grows.priorityBoost (chargeQuantum s₀) tick
    have hd := (frame_chargeQuantum hf.disciplined).disciplined
    refine ⟨hcharge.turn.trans (.of_grows hboost), fun t ht => ?_⟩
    refine (hcharge.queued t ht).imp (fun hy => hy.priorityBoost tick) fun hs => ⟨?_, fun hfront => ?_⟩
    · rw [queued_priorityBoost hd (hcharge.turn.mode.trans hm)]
      exact hs.1
    · exact (hs.2 hfront).then_waits (hboost.waits (hs.2 hfront).place.mem)

/-- A tick moves the clock, and the boost closer unless it comes now. -/
theorem clocked_schedulerTick (h : s.Disciplined n) (hm : s.schedMode = .mlfq) {tick : ℤ}
    (hc : Clocked s tick) :
    Clocked (schedulerTick s tick) (tick + 1) ∧ ∀ t ∈ (schedulerTick s tick).queued,
      t ∈ ((schedulerTick s tick).mlfq 0).toList ∨
        boostDue (schedulerTick s tick) (tick + 1) + 1 ≤ boostDue s tick := by
  set s₀ := if s.schedMode = .mlfq ∧ s.lastBoostTick = 0 then { s with lastBoostTick := tick }
    else s with hs₀
  have he : schedulerTick s tick = if s₀.schedMode = .mlfq ∧ 30 ≤ tick - s₀.lastBoostTick then
      schedulerPriorityBoost (chargeQuantum s₀) tick else chargeQuantum s₀ := rfl
  have h₀ : s₀.Disciplined n ∧ s₀.schedMode = .mlfq ∧
      s₀.lastBoostTick = if s.lastBoostTick = 0 then tick else s.lastBoostTick := by
    rw [hs₀]
    by_cases hz : s.lastBoostTick = 0
    · have hf : Frame s { s with lastBoostTick := tick } n ∅ := h.congr rfl rfl rfl rfl rfl rfl
      rw [if_pos ⟨hm, hz⟩, if_pos hz]
      exact ⟨hf.disciplined, hm, rfl⟩
    · rw [if_neg fun hh => hz hh.2, if_neg hz]
      exact ⟨h, hm, rfl⟩
  obtain ⟨hd, hm₀, hlast⟩ := h₀
  have hd' := (frame_chargeQuantum hd).disciplined
  have hmode : (chargeQuantum s₀).schedMode = .mlfq := (serves_chargeQuantum hd).turn.mode.trans hm₀
  rw [he]
  split_ifs with hboost
  · have hnew := lastBoost_priorityBoost (chargeQuantum s₀) hmode tick
    refine ⟨?_, fun t ht => Or.inl ?_⟩
    · unfold Clocked at hc ⊢
      rw [hnew]
      split_ifs at hlast <;> omega
    · rw [queued_priorityBoost hd' hmode] at ht
      exact mem_front_priorityBoost hd' hmode tick ht
  · have hlast' := lastBoost_charge s₀
    have hno : tick - (chargeQuantum s₀).lastBoostTick < 30 := by
      rw [hlast']
      exact not_le.mp fun hle => hboost ⟨hm₀, hle⟩
    have hsucc := hc.succ (hlast'.trans hlast) hno
    exact ⟨hsucc.1, fun _ _ => Or.inr hsucc.2⟩

end Scheduler

open Scheduler (Passive Serves)

/-! ## The parts of a tick -/

/-- Nobody is dispatched, and there is no boost. -/
def Rests (k k' : Kernel) : Prop :=
  Passive k.sched k'.sched ∧ k'.sched.lastBoostTick = k.sched.lastBoostTick

/-- There is no boost, and whoever is queued waits no longer. -/
def Goes (k k' : Kernel) : Prop :=
  Serves k.sched k'.sched 0 ∧ k'.sched.lastBoostTick = k.sched.lastBoostTick

section parts

variable {k k' k'' : Kernel} {t : ℕ}

theorem Rests.goes (h : Rests k k') : Goes k k' := ⟨h.1.serves, h.2⟩

theorem Rests.then_goes (h : Rests k k') (h' : Goes k' k'') : Goes k k'' :=
  ⟨h.1.then_serves h'.1, h'.2.trans h.2⟩

theorem Rests.of_sched (h : k'.sched = k.sched) : Rests k k' := by
  unfold Rests
  rw [h]
  exact ⟨.refl _, rfl⟩

theorem Goes.congr (h : Goes k k') (hs : k''.sched = k'.sched) : Goes k k'' := by
  unfold Goes
  rw [hs]
  exact h

theorem Rests.setTcb (k : Kernel) (t : ℕ) (f : TCB → TCB) : Rests k (k.setTcb t f) :=
  ⟨.setTcb k.sched t f, rfl⟩

theorem threadRelation_rests : ThreadRelation Rests where
  trans h h' := ⟨h.1.trans h'.1, h'.2.trans h.2⟩
  same h := .of_sched h.sched

theorem Rests.add (k : Kernel) (t : ℕ) : Rests k { k with sched := schedulerAdd k.sched t } :=
  ⟨Scheduler.passive_schedulerAdd k.sched t, Scheduler.lastBoost_add k.sched t⟩

theorem Rests.unblockThread (k : Kernel) (t : ℕ) : Rests k (unblockThread k t) := by
  unfold Rests
  rw [sched_unblockThread]
  exact ⟨(Passive.setTcb k.sched t threadUnblock).trans (Scheduler.passive_schedulerAdd _ t),
    Scheduler.lastBoost_add _ t⟩

theorem wakeRelation_rests : WakeRelation Rests :=
  ⟨threadRelation_rests, fun {k t} _ _ => .unblockThread k t⟩

theorem serveRelation_rests : ServeRelation Rests where
  toThreadRelation := threadRelation_rests
  done k t := .setTcb k t _
  terminate _ _ := .of_sched rfl
  serve {k pid t} _ _ _ := by
    set k₁ := FleetOS.unblockThread k t
    have h₂ : Rests k₁ { k₁ with
        deadlockPhase := Function.update k₁.deadlockPhase pid (k₁.deadlockPhase pid + 1) } := .of_sched rfl
    exact threadRelation_rests.trans (threadRelation_rests.trans (.unblockThread k t) h₂) (.setTcb _ t _)

/-- The thread that blocks has the processor. -/
theorem goes_blockThread (hd : k.sched.Disciplined k.threadCount) (hrun : k.runningThread = some t)
    (reason : BlockReason) : Goes k (blockThread k t reason) := by
  obtain ⟨hcur, hstate⟩ := runningThread_some hrun
  unfold Goes
  rw [sched_blockThread hstate]
  exact ⟨Scheduler.serves_schedulerBlock hd hcur reason, Scheduler.lastBoost_block _ t⟩

theorem goes_executeCommand (hd : k.sched.Disciplined k.threadCount) (hrun : k.runningThread = some t) :
    Goes k (executeCommand k t) := by
  have hx := commandEffect k t
  generalize executeCommand k t = k' at hx ⊢
  have hprep : ∀ {k₁}, Prepared k k₁ →
      Rests k k₁ ∧ k₁.sched.Disciplined k₁.threadCount ∧ k₁.runningThread = some t := by
    intro k₁ hk
    refine ⟨.of_sched hk.sched, ?_, ?_⟩
    · rw [hk.sched, hk.threadCount]
      exact hd
    · rw [runningThread_iff, hk.sched]
      exact runningThread_iff.mp hrun
  cases hx with
  | @ran k₁ hk hp =>
    exact (threadRelation_rests.trans (hprep hk).1 (threadRelation_rests.trans (.setTcb k₁ t threadExecute)
      (wakeRelation_rests.wakeThreads _ _))).goes
  | refused hk hp hw hc => exact (hprep hk).1.then_goes (goes_blockThread (hprep hk).2.1 (hprep hk).2.2 _)
  | acquired hk hc hd => exact (threadRelation_rests.trans (hprep hk).1 (.setTcb _ t TCB.advance)).goes
  | @wrote k₁ hk hp hc pid path =>
    obtain ⟨hr, hd₁, hrun₁⟩ := hprep hk
    have hd₂ : (k₁.setTcb t TCB.advance).sched.Disciplined (k₁.setTcb t TCB.advance).threadCount :=
      (Scheduler.frame_setTcb_of_kernel hd₁ rfl rfl rfl).disciplined
    have hrun₂ : (k₁.setTcb t TCB.advance).runningThread = some t := by
      obtain ⟨hcur, hstate⟩ := runningThread_iff.mp hrun₁
      refine runningThread_iff.mpr ⟨hcur, ?_⟩
      simpa [Kernel.setTcb, TCB.advance] using hstate
    have hblock := (threadRelation_rests.trans hr (.setTcb k₁ t TCB.advance)).then_goes
      (goes_blockThread hd₂ hrun₂ .ioBlock)
    rw [registerIo_rest]
    exact hblock.congr rfl

theorem goes_triggerPageFault (hd : k.sched.Disciplined k.threadCount) : Goes k (triggerPageFault k) := by
  rcases triggerPageFault_cases k with ⟨pcb, addr, he⟩ | he | ⟨t, p, pcb, addr, page, hrun, -, -, -, -, he⟩ <;>
    rw [he]
  · exact Rests.goes (.of_sched rfl)
  · exact Rests.goes (.of_sched rfl)
  · rw [registerPageFault_rest]
    set k₁ : Kernel := { k with mem := (memAccess k.mem pcb addr).mem }
    have hblock : Goes k₁ (blockThread k₁ t .pageFault) := goes_blockThread (k := k₁) hd hrun .pageFault
    have h₁ : Rests k k₁ := .of_sched rfl
    exact (h₁.then_goes hblock).congr rfl

/-- Only `scheduler_tick` boosts, and no other part makes anybody wait longer. -/
theorem goes_machineStep {m : Kernel × Phase} (h : MachineTables m) (hp : m.2 ≠ .schedTick) :
    Goes m.1 (machineStep m).1 := by
  have hd := h.tables.disciplined
  obtain ⟨k, ph⟩ := m
  have hrefl : Rests k k := .of_sched rfl
  cases ph with
  | schedTick => exact absurd rfl hp
  | top =>
    simp only [machineStep]
    split_ifs
    · exact hrefl.goes
    · exact Rests.goes (.of_sched rfl)
  | arrivals => exact (threadRelation_rests.checkArrivals (fun _ _ => .of_sched rfl) .add k).goes
  | ioEvents => exact (wakeRelation_rests.foldl wakeRelation_rests.completeIoEvent _ k).goes
  | pageFaults => exact (wakeRelation_rests.foldl wakeRelation_rests.completePageFault _ k).goes
  | compact => exact Rests.goes (.of_sched rfl)
  | dispatch =>
    simp only [machineStep, ensureRunning]
    split_ifs
    · exact hrefl.goes
    · exact ⟨(Scheduler.serves_schedulerNext hd.toSound).mono (Nat.zero_le _), Scheduler.lastBoost_next k.sched⟩
  | execute =>
    simp only [machineStep]
    split
    · exact hrefl.goes
    · exact goes_executeCommand hd ‹_›
  | retire t =>
    by_cases hrun : (k.tcb t).state = .running
    · have hnot := (hd.running t (h.retiring t rfl) hrun).2
      refine (serveRelation_rests.retire ?_).goes
      exact ⟨Scheduler.passive_schedulerTerminate hd hnot, Scheduler.lastBoost_terminate k.sched t⟩
    · have he : (machineStep (k, .retire t)).1 = k := if_neg fun hb => hrun hb.1
      rw [he]
      exact hrefl.goes
  | detect => exact (serveRelation_rests.detectDeadlock k).goes
  | crash => exact (serveRelation_rests.injectCrash k).goes
  | pageFault => exact goes_triggerPageFault hd
  | waitTime => exact hrefl.goes
  | snapshot => exact Rests.goes (.of_sched (sched_snapshotSync k))
  | wakeWaiters => exact (wakeRelation_rests.wakeBufferWaiters k).goes
  | finish =>
    simp only [machineStep]
    split_ifs
    · exact hrefl.goes
    · exact Rests.goes (.of_sched rfl)
  | halted => exact hrefl.goes

end parts

/-! ## The wait -/

/-- Whether `scheduler_tick` has been called in the present tick. -/
def Phase.charged : Phase → Bool
  | .waitTime | .snapshot | .wakeWaiters | .finish => true
  | _ => false

/-- How often `scheduler_tick` has been called. -/
def charges (m : Kernel × Phase) : ℤ := m.1.currentTick + if m.2.charged then 1 else 0

/-- The calls of `scheduler_tick` that queued thread `t` waits for, at most. -/
def waitingRank (t : ℕ) (m : Kernel × Phase) : ℕ :=
  match m.1.sched.schedMode with
  | .rr => m.1.sched.frontRank t
  | .mlfq => feedbackRank t (m.1.sched, charges m)

/-- What is true of the scheduler in every state of a run in which the loop goes on. -/
structure Paced (m : Kernel × Phase) : Prop where
  tables : MachineTables m
  quantum : m.1.sched.quantumRemaining ≤ maxQuantum m.1.sched.schedMode
  clocked : m.1.sched.schedMode = .mlfq → m.2 ≠ .halted → Clocked m.1.sched (charges m)

section ranks

variable {m : Kernel × Phase} {t : ℕ}

theorem charges_range (m : Kernel × Phase) :
    m.1.currentTick ≤ charges m ∧ charges m ≤ m.1.currentTick + 1 := by
  unfold charges
  split_ifs <;> omega

/-- A call moves the clock, and nothing else does while the loop goes on. -/
theorem charges_machineStep (h : MachineTables m) (hhalt : (machineStep m).2 ≠ .halted) :
    charges (machineStep m) = charges m + if m.2 = .schedTick then 1 else 0 := by
  have htick := (tableStep h).currentTick
  obtain ⟨k, ph⟩ := m
  unfold charges
  cases ph with
  | top =>
    by_cases hup : 0 < k.config.maxTicks ∧ k.config.maxTicks ≤ k.currentTick
    · exact absurd (by simp [machineStep, hup]) hhalt
    · simp [machineStep, hup, Phase.charged]
  | execute =>
    rw [htick (by simp)]
    cases hrun : k.runningThread <;> simp [machineStep, hrun, Phase.charged]
  | finish =>
    cases hall : allTerminated k with
    | true => exact absurd (by simp [machineStep, hall]) hhalt
    | false => simp [machineStep, hall, Phase.charged]
  | halted => exact absurd rfl hhalt
  | _ =>
    rw [htick (by simp)]
    simp [machineStep, Phase.charged]

/-- The loop ends in the tick that it is in. -/
theorem currentTick_of_halted (h : MachineTables m) (hhalt : (machineStep m).2 = .halted) :
    (machineStep m).1.currentTick = m.1.currentTick := by
  by_cases hp : m.2 = .finish
  · obtain ⟨k, ph⟩ := m
    obtain rfl : ph = .finish := hp
    cases hall : allTerminated k <;> simp [machineStep, hall] at hhalt ⊢
  · exact (tableStep h).currentTick hp

/-- Nothing happens after the loop. -/
theorem machineStep_of_halted (hhalt : m.2 = .halted) : machineStep m = m := by
  obtain ⟨k, ph⟩ := m
  obtain rfl : ph = .halted := hhalt
  rfl

/-- What a part of a tick does to the queued threads. -/
theorem serves_machineStep (h : MachineTables m) :
    Serves m.1.sched (machineStep m).1.sched (if m.2 = .schedTick then 1 else 0) := by
  by_cases hp : m.2 = .schedTick
  · obtain ⟨k, ph⟩ := m
    obtain rfl : ph = .schedTick := hp
    exact Scheduler.serves_schedulerTick h.tables.disciplined k.currentTick
  · rw [if_neg hp]
    exact (goes_machineStep h hp).1

/-- What a part of a tick does to the time of the next boost. -/
theorem clocked_machineStep (h : MachineTables m) (hm : m.1.sched.schedMode = .mlfq)
    (hc : Clocked m.1.sched (charges m)) (hhalt : (machineStep m).2 ≠ .halted) :
    Clocked (machineStep m).1.sched (charges (machineStep m)) ∧ ∀ t ∈ (machineStep m).1.sched.queued,
      t ∈ ((machineStep m).1.sched.mlfq 0).toList ∨
        boostDue (machineStep m).1.sched (charges (machineStep m)) + (if m.2 = .schedTick then 1 else 0) ≤
          boostDue m.1.sched (charges m) := by
  rw [charges_machineStep h hhalt]
  by_cases hp : m.2 = .schedTick
  · obtain ⟨k, ph⟩ := m
    obtain rfl : ph = .schedTick := hp
    have hnow : charges (k, .schedTick) = k.currentTick := by simp [charges, Phase.charged]
    rw [hnow] at hc ⊢
    exact Scheduler.clocked_schedulerTick h.tables.disciplined hm hc
  · obtain ⟨-, hlast⟩ := goes_machineStep h hp
    simp only [if_neg hp, add_zero]
    refine ⟨?_, fun t _ => Or.inr (le_of_eq ?_)⟩
    · unfold Clocked
      rw [hlast]
      exact hc
    · rw [boostDue, boostDue, hlast]

theorem Paced.machineStep (h : Paced m) : Paced (machineStep m) := by
  have hs := serves_machineStep h.tables
  have hmode := hs.turn.mode
  refine ⟨tables_machineStep h.tables, hmode ▸ hs.turn.quantum h.quantum, fun hm hhalt => ?_⟩
  have hm : m.1.sched.schedMode = .mlfq := hmode.symm.trans hm
  have hhalt' : m.2 ≠ .halted := by
    intro hh
    rw [machineStep_of_halted hh] at hhalt
    exact hhalt hh
  exact (clocked_machineStep h.tables hm (h.clocked hm hhalt') hhalt).1

theorem Paced.remaining_le (h : Paced m) : m.1.sched.remaining ≤ (maxQuantum m.1.sched.schedMode).toNat := by
  have hone : 1 ≤ (maxQuantum m.1.sched.schedMode).toNat := by
    cases m.1.sched.schedMode <;> decide
  have hquantum := Int.toNat_le_toNat h.quantum
  unfold Scheduler.remaining
  split
  · exact hone
  · exact max_le hone hquantum

theorem Paced.frontRank_le (h : Paced m) (hm : m.1.sched.schedMode = .mlfq)
    (ht : t ∈ (m.1.sched.mlfq 0).toList) : m.1.sched.frontRank t ≤ 70 := by
  have hidx := List.idxOf_lt_length_of_mem ht
  have hcount := (h.tables.tables.disciplined.mlfq_wf 0).count_le
  rw [RingBuffer.length_toList] at hidx
  have hrem : m.1.sched.remaining ≤ 8 := by
    have := h.remaining_le
    rw [hm] at this
    exact this
  have htwo : (Scheduler.frontQuantum .mlfq).toNat = 2 := rfl
  have hmax : maxReadyQueue = 32 := rfl
  rw [Scheduler.frontRank, Scheduler.front_mlfq hm, hm, htwo]
  omega

/-- The rank at position `k` of the round robin queue. -/
theorem Paced.rank_rr (h : Paced m) (hm : m.1.sched.schedMode = .rr) {k : ℕ}
    (hk : m.1.sched.rr.toList[k]? = some t) :
    t ∈ m.1.sched.queued ∧ waitingRank t m ≤ 4 * (k + 1) := by
  have hmem : t ∈ m.1.sched.front.toList := by
    rw [Scheduler.front_rr hm]
    exact List.mem_of_getElem? hk
  refine ⟨(Scheduler.mem_queued_rr hm).mpr hmem, ?_⟩
  have hnodup := h.tables.tables.disciplined.nodup
  rw [Scheduler.queued_rr hm, Multiset.coe_nodup] at hnodup
  obtain ⟨hlt, hget⟩ := List.getElem?_eq_some_iff.mp hk
  have hidx : m.1.sched.front.toList.idxOf t = k := by
    rw [Scheduler.front_rr hm, ← hget]
    exact hnodup.idxOf_getElem k hlt
  have hrem : m.1.sched.remaining ≤ 4 := by
    have := h.remaining_le
    rw [hm] at this
    exact this
  have hfour : (Scheduler.frontQuantum .rr).toNat = 4 := rfl
  simp only [waitingRank, hm]
  rw [Scheduler.frontRank, hm, hidx, hfour]
  omega

/-- The rank in feedback mode, while the loop goes on. -/
theorem Paced.rank_mlfq (h : Paced m) (hm : m.1.sched.schedMode = .mlfq) (hhalt : m.2 ≠ .halted) :
    waitingRank t m ≤ 104 := by
  have hdue := (h.clocked hm hhalt).due
  simp only [waitingRank, hm, feedbackRank]
  split_ifs with hfront
  · exact (h.frontRank_le hm hfront).trans (by decide)
  · omega

theorem waitingRank_pos (t : ℕ) (m : Kernel × Phase) : 0 < waitingRank t m := by
  unfold waitingRank
  split
  · exact m.1.sched.frontRank_pos t
  · exact feedbackRank_pos t _

/-- A queued thread that does not get the processor stays queued, and while the loop goes on it waits for
no more calls, and after a call for one less. -/
theorem Paced.waits (h : Paced m) (ht : t ∈ m.1.sched.queued)
    (hrun : (FleetOS.machineStep m).1.runningThread ≠ some t) :
    t ∈ (FleetOS.machineStep m).1.sched.queued ∧ (m.2 ≠ .halted → (FleetOS.machineStep m).2 ≠ .halted →
      waitingRank t (FleetOS.machineStep m) + (if m.2 = .schedTick then 1 else 0) ≤ waitingRank t m) := by
  have hs := serves_machineStep h.tables
  obtain ⟨hq, hstands⟩ := (hs.queued t ht).resolve_left fun hy => hrun (runningThread_iff.mpr hy)
  refine ⟨hq, fun hhalt hhalt' => ?_⟩
  have hmode := hs.turn.mode
  cases hm : m.1.sched.schedMode with
  | rr =>
    simp only [waitingRank, hmode.trans hm, hm]
    exact (hstands ((Scheduler.mem_queued_rr hm).mp ht)).rank
  | mlfq =>
    have hm' := hmode.trans hm
    have hnext := h.machineStep
    obtain ⟨hclock, hdue⟩ := clocked_machineStep h.tables hm (h.clocked hm hhalt) hhalt'
    simp only [waitingRank, hm, hm', feedbackRank]
    by_cases hfront : t ∈ (m.1.sched.mlfq 0).toList
    · have hs := hstands (Scheduler.front_mlfq hm ▸ hfront)
      have hfront' := Scheduler.front_mlfq hm' ▸ hs.place.mem
      rw [if_pos hfront, if_pos hfront']
      exact hs.rank
    · have hd := (h.clocked hm hhalt).due
      have hd' := hclock.due
      rw [if_neg hfront]
      split_ifs with hfront' htk htk
      · have := hnext.frontRank_le hm' hfront'
        omega
      · have := hnext.frontRank_le hm' hfront'
        omega
      all_goals
        have hless := (hdue t hq).resolve_left hfront'
        simp only [htk, if_true, if_false] at hless
        omega

/-- Before it has waited for `bound` calls, counted from the first. -/
structure Waiting (t : ℕ) (bound : ℤ) (m : Kernel × Phase) : Prop where
  paced : Paced m
  queued : t ∈ m.1.sched.queued
  rank : m.2 ≠ .halted → waitingRank t m + charges m ≤ bound
  tick : m.1.currentTick < bound

theorem Waiting.machineStep {bound : ℤ} (h : Waiting t bound m)
    (hrun : (machineStep m).1.runningThread ≠ some t) : Waiting t bound (machineStep m) := by
  obtain ⟨hq, hrank⟩ := h.paced.waits h.queued hrun
  by_cases hhalt : m.2 = .halted
  · rw [machineStep_of_halted hhalt]
    exact h
  have hrank' : (FleetOS.machineStep m).2 ≠ .halted →
      waitingRank t (FleetOS.machineStep m) + charges (FleetOS.machineStep m) ≤ bound := by
    intro hhalt'
    have hle := h.rank hhalt
    have hstep := hrank hhalt hhalt'
    rw [charges_machineStep h.paced.tables hhalt']
    split_ifs at hstep ⊢ <;> omega
  refine ⟨h.paced.machineStep, hq, hrank', ?_⟩
  by_cases hhalt' : (FleetOS.machineStep m).2 = .halted
  · rw [currentTick_of_halted h.paced.tables hhalt']
    exact h.tick
  · have hpos := waitingRank_pos t (FleetOS.machineStep m)
    have hcharges := (charges_range (FleetOS.machineStep m)).1
    have hle := hrank' hhalt'
    omega

end ranks

/-! ## Runs -/

section runs

variable (k₀ : Kernel) (cfg : KernelConfig) {w : List ProcessSpec}

theorem turn_kernelInit (w : List ProcessSpec) :
    Turn (schedulerInit k₀.sched cfg.schedMode) (kernelInit k₀ cfg w).sched ∧
      (kernelInit k₀ cfg w).sched.lastBoostTick = 0 := by
  refine threads_kernelInit (P := fun k => Turn (schedulerInit k₀.sched cfg.schedMode) k.sched ∧
    k.sched.lastBoostTick = 0) (fun hs _ h => hs ▸ h) (fun {k} p spec _ s _ h => ?_) (fun {k} t h => ?_) k₀ cfg
    ⟨⟨rfl, id⟩, rfl⟩
  · rw [sched_bootThread]
    exact ⟨h.1.trans (.of_grows (.setTcb k.sched _ _)), h.2⟩
  · exact ⟨h.1.trans (Rests.add k t).1.turn, (Rests.add k t).2.trans h.2⟩

theorem paced_kernelInit (hw : ValidWorkload w) : Paced (kernelInit k₀ cfg w, .top) := by
  obtain ⟨hturn, hlast⟩ := turn_kernelInit k₀ cfg w
  have hmode : (kernelInit k₀ cfg w).sched.schedMode = cfg.schedMode := hturn.mode
  refine ⟨tables_machineRun k₀ cfg hw 0, ?_, fun _ _ => Or.inl ⟨hlast, ?_, ?_⟩⟩
  · dsimp only
    rw [hmode]
    refine hturn.quantum ?_
    cases cfg.schedMode with
    | rr => exact le_rfl
    | mlfq => exact (by decide : schedQuantumMlfqQ0 ≤ schedQuantumMlfqQ2)
  all_goals simp [charges, Phase.charged, currentTick_kernelInit]

theorem paced_machineRun (hw : ValidWorkload w) (n : ℕ) : Paced (machineRun (kernelInit k₀ cfg w) n) :=
  Machine.invariant (P := fun _ => True) (fun _ h _ => h.machineStep) (fun _ _ => trivial)
    (paced_kernelInit k₀ cfg hw)

theorem mode_machineRun (hw : ValidWorkload w) (n : ℕ) :
    (machineRun (kernelInit k₀ cfg w) n).1.sched.schedMode = cfg.schedMode := by
  induction n with
  | zero => exact (turn_kernelInit k₀ cfg w).1.mode
  | succ n ih =>
    rw [machineRun_succ]
    exact (serves_machineStep (tables_machineRun k₀ cfg hw n)).turn.mode.trans ih

theorem machineRun_of_halted (w : List ProcessSpec) {i j : ℕ} (hij : i ≤ j)
    (h : (machineRun (kernelInit k₀ cfg w) i).2 = .halted) :
    machineRun (kernelInit k₀ cfg w) j = machineRun (kernelInit k₀ cfg w) i := by
  induction j, hij using Nat.le_induction with
  | base => rfl
  | succ j _ ih =>
    rw [machineRun_succ, ih, machineStep_of_halted h]

/-- A queued thread gets the processor before it has waited for longer than its rank. -/
theorem runs_of_queued (hw : ValidWorkload w) {i j t : ℕ} (hij : i ≤ j)
    (ht : t ∈ (machineRun (kernelInit k₀ cfg w) i).1.sched.queued)
    (hlong : (machineRun (kernelInit k₀ cfg w) i).1.currentTick +
      waitingRank t (machineRun (kernelInit k₀ cfg w) i) < (machineRun (kernelInit k₀ cfg w) j).1.currentTick) :
    ∃ l, i ≤ l ∧ l ≤ j ∧ (machineRun (kernelInit k₀ cfg w) l).1.runningThread = some t := by
  by_contra hnot
  set m := machineRun (kernelInit k₀ cfg w) i with hm
  have hrange := charges_range m
  have hpos := waitingRank_pos t m
  have hfirst : Waiting t (waitingRank t m + charges m) m :=
    ⟨paced_machineRun k₀ cfg hw i, ht, fun _ => le_rfl, by omega⟩
  have hlast := Machine.invariant_from (P := fun m => (machineStep m).1.runningThread ≠ some t)
    (fun m h hrun => h.machineStep hrun) hij (fun n hin hnj hrun => hnot ⟨n + 1, by omega, hnj, ?_⟩) hfirst
  · have htick := hlast.tick
    have he : machineStep^[j] (kernelInit k₀ cfg w, .top) = machineRun (kernelInit k₀ cfg w) j := rfl
    rw [he] at htick
    omega
  · rw [machineRun_succ]
    exact hrun

/-- In round robin mode a thread at position `k` of the queue gets the processor within `4 * (k + 1)`
ticks, in feedback mode every queued thread does within `104` ticks, and so within `128` ticks each ready
thread of a process that has arrived. -/
theorem no_starvation_machineRun (hw : ValidWorkload w) {i j : ℕ} (hij : i ≤ j) :
    let run := machineRun (kernelInit k₀ cfg w)
    let Runs := fun t => ∃ l, i ≤ l ∧ l ≤ j ∧ (run l).1.runningThread = some t
    (cfg.schedMode = .rr → ∀ k t : ℕ, (run i).1.sched.rr.toList[k]? = some t →
      (run i).1.currentTick + schedQuantumRr * (k + 1) < (run j).1.currentTick → Runs t) ∧
    (cfg.schedMode = .mlfq → ∀ t ∈ (run i).1.sched.queued,
      (run i).1.currentTick + (32 + 8 + 2 * maxThreads) < (run j).1.currentTick → Runs t) ∧
    ∀ p < (run i).1.procCount, ((run i).1.procs p).state ≠ .new → ∀ t < (run i).1.threadCount,
      ((run i).1.tcb t).ownerPid = ((run i).1.procs p).pid → ((run i).1.tcb t).state = .ready →
        (run i).1.currentTick + schedQuantumRr * maxThreads < (run j).1.currentTick → Runs t := by
  intro run Runs
  have hpaced : Paced (run i) := paced_machineRun k₀ cfg hw i
  have hmode : (run i).1.sched.schedMode = cfg.schedMode := mode_machineRun k₀ cfg hw i
  have hruns : ∀ t ∈ (run i).1.sched.queued, ∀ bound : ℕ, waitingRank t (run i) ≤ bound →
      (run i).1.currentTick + bound < (run j).1.currentTick → Runs t :=
    fun t ht bound hrank hlong => runs_of_queued k₀ cfg hw hij ht (by
      have : (waitingRank t (run i) : ℤ) ≤ bound := by exact_mod_cast hrank
      change (run i).1.currentTick + waitingRank t (run i) < (run j).1.currentTick
      omega)
  have hfour : schedQuantumRr = 4 := rfl
  have hmax : maxThreads = 32 := rfl
  have hrr : cfg.schedMode = .rr → ∀ k t : ℕ, (run i).1.sched.rr.toList[k]? = some t →
      (run i).1.currentTick + schedQuantumRr * (k + 1) < (run j).1.currentTick → Runs t := by
    intro hm k t hk hlong
    rw [hfour] at hlong
    obtain ⟨ht, hrank⟩ := hpaced.rank_rr (hmode.trans hm) hk
    exact hruns t ht _ hrank (by push_cast; omega)
  have hmlfq : cfg.schedMode = .mlfq → ∀ t ∈ (run i).1.sched.queued,
      (run i).1.currentTick + (32 + 8 + 2 * maxThreads) < (run j).1.currentTick → Runs t := by
    intro hm t ht hlong
    by_cases hhalt : (run i).2 = .halted
    · have he : run j = run i := machineRun_of_halted k₀ cfg w hij hhalt
      rw [he] at hlong
      omega
    · exact hruns t ht _ (hpaced.rank_mlfq (hmode.trans hm) hhalt) (by push_cast; omega)
  refine ⟨hrr, hmlfq, fun p hp hnew t ht ho hready hlong => ?_⟩
  rw [hfour, hmax] at hlong
  have hqueued := (attentive_machineRun k₀ cfg hw i).mem_queued hp hnew ht ho hready
  cases hm : cfg.schedMode with
  | rr =>
    have hmem := (Scheduler.mem_queued_rr (hmode.trans hm)).mp hqueued
    rw [Scheduler.front_rr (hmode.trans hm)] at hmem
    obtain ⟨k, hk, hget⟩ := List.mem_iff_getElem.mp hmem
    refine hrr hm k t (List.getElem?_eq_some_iff.mpr ⟨hk, hget⟩) ?_
    have hcount := hpaced.tables.tables.disciplined.rr_wf.count_le
    rw [RingBuffer.length_toList] at hk
    have hready : maxReadyQueue = 32 := rfl
    rw [hfour]
    omega
  | mlfq =>
    refine hmlfq hm t hqueued ?_
    rw [hmax]
    omega

/-- Thread `3` gets the processor behind two others, and thread `0` in feedback mode, from the second
queue. -/
theorem no_starvation_machineRun_drones :
    let run := machineRun (kernelInit .zero ⟨.rr, 100, false, false⟩ droneWorkload)
    let run' := machineRun (kernelInit .zero ⟨.mlfq, 200, false, false⟩ droneWorkload)
    ((run 16).1.sched.rr.toList[2]? = some 3 ∧
      ∃ l, 16 ≤ l ∧ l ≤ 300 ∧ (run l).1.runningThread = some 3) ∧
    (0 ∈ ((run' 80).1.sched.mlfq 1).toList ∧
      ∃ l, 80 ≤ l ∧ l ≤ 1900 ∧ (run' l).1.runningThread = some 0) := by
  have hplace : let run := machineRun (kernelInit .zero ⟨.rr, 100, false, false⟩ droneWorkload)
      (run 16).1.sched.rr.toList[2]? = some 3 ∧
        (run 16).1.currentTick + schedQuantumRr * (2 + 1) < (run 300).1.currentTick := by
    intro run
    decide +kernel
  have hqueue : let run := machineRun (kernelInit .zero ⟨.mlfq, 200, false, false⟩ droneWorkload)
      0 ∈ ((run 80).1.sched.mlfq 1).toList ∧ 0 ∈ (run 80).1.sched.queued ∧
        (run 80).1.currentTick + (32 + 8 + 2 * maxThreads) < (run 1900).1.currentTick := by
    intro run
    decide +kernel
  have h := no_starvation_machineRun .zero ⟨.rr, 100, false, false⟩ valid_droneWorkload
    (by omega : 16 ≤ 300)
  have h' := no_starvation_machineRun .zero ⟨.mlfq, 200, false, false⟩ valid_droneWorkload
    (by omega : 80 ≤ 1900)
  generalize machineRun (kernelInit .zero ⟨.rr, 100, false, false⟩ droneWorkload) = run at h hplace ⊢
  generalize machineRun (kernelInit .zero ⟨.mlfq, 200, false, false⟩ droneWorkload) = run' at h' hqueue ⊢
  exact ⟨⟨hplace.1, h.1 rfl 2 3 hplace.1 hplace.2⟩, hqueue.1, h'.2.1 rfl 0 hqueue.2.1 hqueue.2.2⟩

end runs

end FleetOS
