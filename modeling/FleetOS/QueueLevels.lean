import FleetOS.ReadyQueues

/-!
# The levels of queued threads

The queue of the other mode is empty, and in feedback mode the level of a queued thread is the
index of its queue (`Scheduler.Placed`). A thread that is pushed gets the level of its queue in
the same step (`Placed.push`), and taking threads out only shortens the queues
(`Placed.shrink`); every operation of the scheduler is made of these two.
-/

namespace FleetOS

namespace Scheduler

/-- Queued threads are in the queue of their level, and only in the mode that uses it. -/
structure Placed (s : Scheduler) : Prop where
  rr_empty : s.schedMode = .mlfq → s.rr.toList = []
  mlfq_empty : s.schedMode = .rr → ∀ l, (s.mlfq l).toList = []
  level : ∀ l, 0 ≤ l ∧ l ≤ 2 → ∀ t ∈ (s.mlfq l).toList, (s.tcb t).mlfqLevel = l

/-! ## Pushing and taking out -/

theorem mem_queuePush {q : ReadyQueue} {t u : ℕ} (h : u ∈ (queuePush q t).toList) :
    u ∈ q.toList ∨ u = t := by
  unfold queuePush at h
  split_ifs at h with hfull
  · exact Or.inl h
  · exact Or.inl h
  · rw [RingBuffer.toList_push (not_le.mp hfull)] at h
    exact (List.mem_append.mp h).imp_right List.mem_singleton.mp

theorem mem_pop {q : ReadyQueue} {u : ℕ} (h : u ∈ q.pop.toList) : u ∈ q.toList := by
  rw [RingBuffer.toList_pop] at h
  exact List.mem_of_mem_tail h

namespace Placed

variable {s s' : Scheduler} {n : ℕ}

theorem congr (h : s.Placed) (hmode : s'.schedMode = s.schedMode) (hrr : s'.rr = s.rr)
    (hmlfq : s'.mlfq = s.mlfq) (hlevel : ∀ u, (s'.tcb u).mlfqLevel = (s.tcb u).mlfqLevel) :
    s'.Placed := by
  refine ⟨fun hm => hrr ▸ h.rr_empty (hmode ▸ hm), fun hm => hmlfq ▸ h.mlfq_empty (hmode ▸ hm),
    fun l hl t ht => ?_⟩
  rw [hlevel]
  exact h.level l hl t (hmlfq ▸ ht)

/-- The level of a thread matters while it is queued. -/
theorem setTcb (h : s.Placed) {t : ℕ} {f : TCB → TCB}
    (hf : (f (s.tcb t)).mlfqLevel = (s.tcb t).mlfqLevel ∨ t ∉ s.queued) : (s.setTcb t f).Placed := by
  refine ⟨h.rr_empty, h.mlfq_empty, fun l hl u hu => ?_⟩
  have hold : (s.tcb u).mlfqLevel = l := h.level l hl u hu
  rw [setTcb_tcb]
  split_ifs with hut
  · rcases hf with hf | hnot
    · rw [hf, ← hut, hold]
    · cases hm : s.schedMode with
      | rr =>
        have hempty : (s.mlfq l).toList = [] := h.mlfq_empty hm l
        have hu : u ∈ (s.mlfq l).toList := hu
        rw [hempty] at hu
        exact absurd hu List.not_mem_nil
      | mlfq => exact absurd (mem_queued_of_mlfq hm hl hu) (hut ▸ hnot)
  · exact hold

theorem setRr (h : s.Placed) (hm : s.schedMode = .rr) (q : ReadyQueue) : (s.setRr q).Placed := by
  refine ⟨fun hm' => ?_, h.mlfq_empty, h.level⟩
  have hm' : s.schedMode = .mlfq := hm'
  rw [hm] at hm'
  cases hm'

/-- Taking threads out of one queue. -/
theorem shrink (h : s.Placed) (hm : s.schedMode = .mlfq) {l : ℤ} {q : ReadyQueue}
    (hq : ∀ u ∈ q.toList, u ∈ (s.mlfq l).toList) : (s.setMlfq l q).Placed := by
  refine ⟨h.rr_empty, fun hm' => ?_, fun l' hl' u hu => ?_⟩
  · have hm' : s.schedMode = .rr := hm'
    rw [hm] at hm'
    cases hm'
  · rw [setMlfq_mlfq] at hu
    split_ifs at hu with hll
    · exact h.level l' hl' u (hll ▸ hq u hu)
    · exact h.level l' hl' u hu

/-- Pushing a thread that is in no queue, and giving it the level. -/
theorem push (h : s.Placed) (hm : s.schedMode = .mlfq) {l : ℤ} {t : ℕ}
    (hnot : t ∉ s.queued) {f : TCB → TCB} (hf : (f (s.tcb t)).mlfqLevel = l) :
    ((s.setMlfq l (queuePush (s.mlfq l) t)).setTcb t f).Placed := by
  refine ⟨h.rr_empty, fun hm' => ?_, fun l' hl' u hu => ?_⟩
  · have hm' : s.schedMode = .rr := hm'
    rw [hm] at hm'
    cases hm'
  · have hu : u ∈ ((s.setMlfq l (queuePush (s.mlfq l) t)).mlfq l').toList := hu
    have htcb : ((s.setMlfq l (queuePush (s.mlfq l) t)).setTcb t f).tcb u =
        if u = t then f (s.tcb t) else s.tcb u := setTcb_tcb _ _ _ _
    have hold : u ∈ (s.mlfq l').toList →
        (((s.setMlfq l (queuePush (s.mlfq l) t)).setTcb t f).tcb u).mlfqLevel = l' := by
      intro hu
      have hut : u ≠ t := fun he => hnot (he ▸ mem_queued_of_mlfq hm hl' hu)
      rw [htcb, if_neg hut]
      exact h.level l' hl' u hu
    rw [setMlfq_mlfq] at hu
    split_ifs at hu with hll
    · rcases mem_queuePush hu with hu | hu
      · exact hold (hll ▸ hu)
      · rw [htcb, if_pos hu, hf, hll]
    · exact hold hu

/-! ## The operations -/

theorem yieldCurrent (h : s.Placed) (hs : s.Sound n) : (yieldCurrent s).Placed := by
  unfold FleetOS.yieldCurrent
  split
  · exact h
  · rename_i c hcur
    split_ifs with hrun
    · have hnot := (hs.running c (hs.current_lt c hcur) hrun).2
      split
      · rename_i hm
        refine (h.setRr hm _).setTcb (Or.inl ?_)
        unfold threadYield
        split_ifs <;> rfl
      · rename_i hm
        refine h.push hm hnot ?_
        unfold threadYield
        split_ifs <;> rfl
    · exact h

theorem dispatch (h : s.Placed) (t : ℕ) (quantum : ℤ) : (dispatch s t quantum).Placed := by
  have h' : ({ s with
      contextSwitches :=
        if s.currentThread ≠ some t then s.contextSwitches + 1 else s.contextSwitches
      currentThread := some t
      quantumRemaining := quantum } : Scheduler).Placed := h.congr rfl rfl rfl fun _ => rfl
  exact h'.setTcb (Or.inl rfl)

theorem schedulerNext (h : s.Placed) (hs : s.Sound n) : (schedulerNext s).Placed := by
  have hy := h.yieldCurrent hs
  have hmode := (yielded hs).mode
  unfold FleetOS.schedulerNext
  split
  · rename_i hm
    split_ifs
    · exact h
    · exact (hy.setRr (hmode.trans hm) _).dispatch _ _
  · rename_i hm
    split_ifs
    · exact h
    · dsimp only
      split
      · exact hy
      · rename_i chosen _
        split
        · exact hy
        · rename_i t q hpop
          have hq : ∀ u ∈ q.toList, u ∈ ((FleetOS.yieldCurrent s).mlfq chosen).toList := by
            unfold queuePop at hpop
            split_ifs at hpop
            obtain ⟨-, rfl⟩ := Prod.mk.inj (Option.some.inj hpop)
            exact fun u hu => mem_pop hu
          have hshrink := hy.shrink (hmode.trans hm) hq
          have hpopped : ({ (FleetOS.yieldCurrent s).setMlfq chosen q with
              currentQueue := chosen } : Scheduler).Placed := hshrink.congr rfl rfl rfl fun _ => rfl
          exact hpopped.dispatch _ _

theorem register (h : s.Placed) (t : ℕ) : (s.register t).Placed := by
  unfold Scheduler.register
  split_ifs
  · exact h
  · exact h.congr rfl rfl rfl fun _ => rfl
  · exact h

theorem schedulerAdd (h : s.Placed) {t : ℕ} (hnot : t ∉ s.queued) : (schedulerAdd s t).Placed := by
  unfold FleetOS.schedulerAdd
  split
  · rename_i hm
    split_ifs
    · exact h
    · exact h
    · exact ((h.setRr hm _).setTcb (Or.inl rfl)).register t
  · rename_i hm
    dsimp only
    split_ifs
    · exact h
    · refine Placed.register (h.push hm hnot ?_) t
      rfl

theorem removeQueued (h : s.Placed) (hmlfq : ∀ l, (s.mlfq l).WF) (t : ℕ) :
    (removeQueued s t).Placed := by
  unfold FleetOS.removeQueued
  split
  · rename_i hm
    split
    · exact h
    · exact h.setRr hm _
  · rename_i hm
    split
    · exact h
    · rename_i i _
      split
      · exact h
      · rename_i idx hidx
        refine h.shrink hm fun u hu => ?_
        rw [queueRemoveAt, (RingBuffer.toList_removeAt_index (hmlfq i) hidx).2] at hu
        exact List.mem_of_mem_erase hu

theorem schedulerTerminate (h : s.Placed) (hmlfq : ∀ l, (s.mlfq l).WF) (t : ℕ) :
    (schedulerTerminate s t).Placed := by
  unfold FleetOS.schedulerTerminate
  dsimp only
  split_ifs
  · have h₀ : ({ s with currentThread := none } : Scheduler).Placed := h.congr rfl rfl rfl fun _ => rfl
    exact (h₀.removeQueued hmlfq t).setTcb (Or.inl rfl)
  · exact (h.removeQueued hmlfq t).setTcb (Or.inl rfl)

theorem demoteCurrent (h : s.Placed) {c : ℕ} (hnot : c ∉ s.queued) : (demoteCurrent s c).Placed := by
  unfold FleetOS.demoteCurrent
  by_cases hd : s.schedMode = .mlfq ∧ (s.tcb c).state = .running
  · rw [if_pos hd]
    refine h.push hd.1 hnot ?_
    unfold threadYield
    split_ifs <;> rfl
  · rw [if_neg hd]
    exact h

/-- The thread that is moved has level `0` before it is pushed into queue `0`. -/
theorem boostStep (h : s.Placed) {i : ℤ} (hi : 0 ≤ i ∧ i ≤ 2) (hm : s.schedMode = .mlfq)
    (hs : s.Sound n) (hne : (s.mlfq i).count ≠ 0) : (boostStep s i).Placed := by
  obtain ⟨hq, hsound⟩ := boostPop_spec hi hm hs hne
  have hnot := (Multiset.nodup_cons.mp (hq ▸ hs.nodup)).1
  have hpop : (s.setMlfq i (s.mlfq i).pop).Placed := h.shrink hm fun u hu => mem_pop hu
  have hpush := (hpop.setTcb (f := fun c => { c with mlfqLevel := 0 }) (Or.inr hnot)).push hm
    (t := (s.mlfq i).slots (s.mlfq i).head) (l := 0) hnot (f := id)
    (congrArg TCB.mlfqLevel (setTcb_self _ _ _))
  refine hpush.congr rfl rfl rfl fun u => ?_
  rw [setTcb_tcb]
  split_ifs with hu
  · rw [hu]
    rfl
  · rfl

theorem boostQueue {i : ℤ} (hi : 0 ≤ i ∧ i ≤ 2) :
    ∀ (fuel : ℕ) (s : Scheduler), s.schedMode = .mlfq → s.Disciplined n → s.Placed →
      (boostQueue i fuel s).Placed
  | 0, _, _, _, h => h
  | fuel + 1, s, hm, hs, h => by
    rw [boostQueue_succ]
    split_ifs with hne
    · exact h
    · have b := boosted hi hm hs.toSound hne
      exact boostQueue hi fuel _ (b.mode.trans hm) (b.frame hs).disciplined
        (h.boostStep hi hm hs.toSound hne)

end Placed

end Scheduler

end FleetOS
