import FleetOS.QuantumCharges
import FleetOS.Ranking
import FleetOS.SchedulerRuns

/-!
# Waiting in the first queue

The queue that `scheduler_next` looks at first is `rr_ready_queue` in round robin mode and queue
`0` in feedback mode (`Scheduler.front`). A thread in it waits for the threads in front of it, each
for at most one quantum of that queue, and for what is left of the current thread's quantum :
`frontRank`. Threads are only pushed behind it (`Grows`), and a switch takes the first thread
(`next_front`), so no call on other threads raises the rank and every tick lowers it, until the
thread is the current one (`front_schedCall`).
-/

namespace FleetOS

open Ranking (NotBack notBack_append notBack_erase)

namespace Scheduler

variable {s s' s'' : Scheduler} {n t : ℕ} {added : Set ℕ}

def front (s : Scheduler) : ReadyQueue :=
  match s.schedMode with
  | .rr => s.rr
  | .mlfq => s.mlfq 0

/-- The quantum of a thread that is taken from the first queue. -/
def frontQuantum : SchedMode → ℤ
  | .rr => schedQuantumRr
  | .mlfq => schedQuantumMlfqQ0

/-- The ticks until the current thread loses the processor. The quantum can be used up and
negative, when there was no other thread to run. -/
def remaining (s : Scheduler) : ℕ :=
  match s.currentThread with
  | none => 1
  | some _ => max 1 s.quantumRemaining.toNat

def frontRank (s : Scheduler) (t : ℕ) : ℕ :=
  (frontQuantum s.schedMode).toNat * s.front.toList.idxOf t + s.remaining

theorem front_rr (hm : s.schedMode = .rr) : s.front = s.rr := by rw [front, hm]

theorem front_mlfq (hm : s.schedMode = .mlfq) : s.front = s.mlfq 0 := by rw [front, hm]

theorem remaining_pos (s : Scheduler) : 0 < s.remaining := by
  unfold remaining
  split
  · decide
  · omega

theorem remaining_congr (hcur : s'.currentThread = s.currentThread)
    (hq : s'.quantumRemaining = s.quantumRemaining) : s'.remaining = s.remaining := by
  rw [remaining, hcur, hq, remaining]

theorem frontRank_pos (s : Scheduler) (t : ℕ) : 0 < s.frontRank t :=
  Nat.add_pos_right _ s.remaining_pos

/-! ## Pushing behind -/

/-- From `s` to `s'` threads are only pushed behind the first queue, and nobody is switched. -/
structure Grows (s s' : Scheduler) : Prop where
  mode : s'.schedMode = s.schedMode
  current : s'.currentThread = s.currentThread
  quantum : s'.quantumRemaining = s.quantumRemaining
  back : ∃ back, s'.front.toList = s.front.toList ++ back

theorem toList_queuePush (q : ReadyQueue) (t : ℕ) :
    ∃ back, (queuePush q t).toList = q.toList ++ back := by
  unfold queuePush
  split_ifs with hfull
  · exact ⟨[], (List.append_nil _).symm⟩
  · exact ⟨[], (List.append_nil _).symm⟩
  · exact ⟨[t], RingBuffer.toList_push (not_le.mp hfull) t⟩

namespace Grows

theorem of_eq (hmode : s'.schedMode = s.schedMode) (hcur : s'.currentThread = s.currentThread)
    (hq : s'.quantumRemaining = s.quantumRemaining) (hrr : s'.rr = s.rr) (hmlfq : s'.mlfq = s.mlfq) :
    Grows s s' := by
  refine ⟨hmode, hcur, hq, [], ?_⟩
  rw [front, hmode, hrr, hmlfq, ← front, List.append_nil]

theorem refl (s : Scheduler) : Grows s s := of_eq rfl rfl rfl rfl rfl

theorem trans (h : Grows s s') (h' : Grows s' s'') : Grows s s'' := by
  obtain ⟨b, hb⟩ := h.back
  obtain ⟨b', hb'⟩ := h'.back
  refine ⟨h'.mode.trans h.mode, h'.current.trans h.current, h'.quantum.trans h.quantum, b ++ b', ?_⟩
  rw [hb', hb, List.append_assoc]

theorem setTcb (s : Scheduler) (t : ℕ) (f : TCB → TCB) : Grows s (s.setTcb t f) :=
  of_eq rfl rfl rfl rfl rfl

theorem register (s : Scheduler) (t : ℕ) : Grows s (s.register t) := by
  unfold Scheduler.register
  split_ifs <;> exact of_eq rfl rfl rfl rfl rfl

theorem push_rr (hm : s.schedMode = .rr) (hroom : s.rr.count < maxReadyQueue) (t : ℕ) :
    Grows s (s.setRr (s.rr.push t)) := by
  refine ⟨rfl, rfl, rfl, [t], ?_⟩
  have hfront : (s.setRr (s.rr.push t)).front = s.rr.push t := front_rr hm
  rw [hfront, front_rr hm, RingBuffer.toList_push hroom]

/-- A push into a queue behind the first one does not show. -/
theorem push_mlfq (hm : s.schedMode = .mlfq) (l : ℤ) (t : ℕ) :
    Grows s (s.setMlfq l (queuePush (s.mlfq l) t)) := by
  have hfront : (s.setMlfq l (queuePush (s.mlfq l) t)).front =
      (s.setMlfq l (queuePush (s.mlfq l) t)).mlfq 0 := front_mlfq hm
  by_cases hl : 0 = l
  · subst hl
    obtain ⟨back, hback⟩ := toList_queuePush (s.mlfq 0) t
    refine ⟨rfl, rfl, rfl, back, ?_⟩
    rw [hfront, setMlfq_mlfq, if_pos rfl, front_mlfq hm, hback]
  · refine ⟨rfl, rfl, rfl, [], ?_⟩
    rw [hfront, setMlfq_mlfq, if_neg hl, front_mlfq hm, List.append_nil]

/-- Taking a thread out of a queue behind the first one does not show either. -/
theorem setMlfq_behind (hm : s.schedMode = .mlfq) {l : ℤ} (hl : 0 ≠ l) (q : ReadyQueue) :
    Grows s (s.setMlfq l q) := by
  have hfront : (s.setMlfq l q).front = (s.setMlfq l q).mlfq 0 := front_mlfq hm
  refine ⟨rfl, rfl, rfl, [], ?_⟩
  rw [hfront, setMlfq_mlfq, if_neg hl, front_mlfq hm, List.append_nil]

theorem yieldCurrent (h : s.Sound n) : Grows s (yieldCurrent s) := by
  unfold FleetOS.yieldCurrent
  split
  · exact refl s
  · rename_i c hcur
    split_ifs with hrun
    · have hc := h.current_lt c hcur
      split
      · rename_i hm
        exact (push_rr hm (queued_rrPush h hm hc (h.running c hc hrun).2).1 c).trans (setTcb _ _ _)
      · rename_i hm
        exact (push_mlfq hm _ c).trans (setTcb _ _ _)
    · exact refl s

theorem demoteCurrent (s : Scheduler) (c : ℕ) : Grows s (demoteCurrent s c) := by
  unfold FleetOS.demoteCurrent
  by_cases hd : s.schedMode = .mlfq ∧ (s.tcb c).state = .running
  · rw [if_pos hd]
    exact (push_mlfq hd.1 _ c).trans (setTcb _ _ _)
  · rw [if_neg hd]
    exact refl s

theorem schedulerAdd (s : Scheduler) (t : ℕ) : Grows s (schedulerAdd s t) := by
  unfold FleetOS.schedulerAdd
  split
  · rename_i hm
    split_ifs with hin hfull
    · exact refl s
    · exact refl s
    · exact ((push_rr hm (not_le.mp hfull) t).trans (setTcb _ _ _)).trans (register _ t)
  · rename_i hm
    dsimp only
    split_ifs
    · exact refl s
    · exact ((push_mlfq hm _ t).trans (setTcb _ _ _)).trans (register _ t)

theorem boostQueue {i : ℤ} (hi : 0 ≠ i) :
    ∀ (fuel : ℕ) (s : Scheduler), s.schedMode = .mlfq → Grows s (boostQueue i fuel s)
  | 0, s, _ => refl s
  | fuel + 1, s, hm => by
    rw [boostQueue_succ]
    split_ifs
    · exact refl s
    · have hpop : Grows s (s.boostPop i) := (setMlfq_behind hm hi _).trans (setTcb _ _ _)
      have hpush : Grows (s.boostPop i) (s.boostStep i) := push_mlfq (s := s.boostPop i) hm 0 _
      exact (hpop.trans hpush).trans (boostQueue hi fuel _ hm)

theorem priorityBoost (s : Scheduler) (tick : ℤ) : Grows s (schedulerPriorityBoost s tick) := by
  unfold schedulerPriorityBoost
  split
  · exact refl s
  · rename_i hm
    have h₀ : Grows s { s with
        lastBoostTick := tick, priorityBoostCount := s.priorityBoostCount + 1 } :=
      of_eq rfl rfl rfl rfl rfl
    have h₁ := h₀.trans (boostQueue (i := 1) (by decide) (s.mlfq 1).count _ hm)
    exact h₁.trans (boostQueue (i := 2) (by decide) _ _ (h₁.mode.trans hm))

end Grows

/-! ## Waiting -/

/-- Thread `t` keeps its place in the first queue, and has not to wait longer for the current
thread. -/
structure Waits (s s' : Scheduler) (t : ℕ) : Prop where
  mode : s'.schedMode = s.schedMode
  place : NotBack t s.front.toList s'.front.toList
  remaining_le : s'.remaining ≤ s.remaining

theorem Grows.waits (h : Grows s s') (ht : t ∈ s.front.toList) : Waits s s' t := by
  obtain ⟨back, hback⟩ := h.back
  refine ⟨h.mode, ?_, (remaining_congr h.current h.quantum).le⟩
  rw [hback]
  exact notBack_append ht back

theorem Waits.trans (h : Waits s s' t) (h' : Waits s' s'' t) : Waits s s'' t :=
  ⟨h'.mode.trans h.mode, h.place.trans h'.place, h'.remaining_le.trans h.remaining_le⟩

theorem Waits.frontRank_le (h : Waits s s' t) : s'.frontRank t ≤ s.frontRank t := by
  unfold frontRank
  rw [h.mode]
  exact Nat.add_le_add (Nat.mul_le_mul_left _ h.place.idxOf_le) h.remaining_le

/-- Another thread is taken out. -/
theorem waits_removeQueued (hrr : s.rr.WF) (hmlfq : ∀ l, (s.mlfq l).WF) (ht : t ∈ s.front.toList)
    {u : ℕ} (hu : t ≠ u) : Waits s (removeQueued s u) t := by
  unfold removeQueued
  split
  · rename_i hm
    split
    · exact (Grows.refl s).waits ht
    · rename_i idx hidx
      rw [front_rr hm] at ht
      have hfront : (rrRemoveAt s idx).front = s.rr.removeAt idx := front_rr hm
      refine ⟨rfl, ?_, (remaining_congr rfl rfl).le⟩
      rw [hfront, (RingBuffer.toList_removeAt_index hrr hidx).2, front_rr hm]
      exact notBack_erase ht hu
  · rename_i hm
    split
    · exact (Grows.refl s).waits ht
    · rename_i i _
      split
      · exact (Grows.refl s).waits ht
      · rename_i idx hidx
        by_cases hi : 0 = i
        · subst hi
          rw [front_mlfq hm] at ht
          have hfront : (s.setMlfq 0 (queueRemoveAt (s.mlfq 0) idx)).front =
              (s.setMlfq 0 (queueRemoveAt (s.mlfq 0) idx)).mlfq 0 := front_mlfq hm
          refine ⟨rfl, ?_, (remaining_congr rfl rfl).le⟩
          rw [hfront, setMlfq_mlfq, if_pos rfl, queueRemoveAt,
            (RingBuffer.toList_removeAt_index (hmlfq 0) hidx).2, front_mlfq hm]
          exact notBack_erase ht hu
        · exact (Grows.setMlfq_behind hm hi _).waits ht

/-- The first thread of the first queue is dispatched, for a full quantum. -/
theorem next_front (h : s.Sound n) {u : ℕ} {l : List ℕ} (hq : s.front.toList = u :: l) :
    (schedulerNext s).schedMode = s.schedMode ∧ (schedulerNext s).currentThread = some u ∧
      (schedulerNext s).quantumRemaining = frontQuantum s.schedMode ∧
      ∃ back, (schedulerNext s).front.toList = l ++ back := by
  have hy := yielded h
  have hgrow := Grows.yieldCurrent h
  obtain ⟨back, hback⟩ := hgrow.back
  rw [hq, List.cons_append] at hback
  have hcount : s.front.count ≠ 0 := fun h0 => by
    rw [(RingBuffer.toList_eq_nil _).mpr h0] at hq
    cases hq
  have hcount' : (yieldCurrent s).front.count ≠ 0 := fun h0 => by
    rw [(RingBuffer.toList_eq_nil _).mpr h0] at hback
    cases hback
  cases hm : s.schedMode with
  | rr =>
    have hm' : (yieldCurrent s).schedMode = .rr := hy.mode.trans hm
    rw [front_rr hm] at hcount
    rw [front_rr hm'] at hback hcount'
    have hcons := RingBuffer.toList_eq_cons hy.rr_wf hcount'
    obtain ⟨hu, hl⟩ := List.cons_eq_cons.mp (hback.symm.trans hcons)
    have he : schedulerNext s = dispatch ((yieldCurrent s).setRr (yieldCurrent s).rr.pop)
        ((yieldCurrent s).rr.slots (yieldCurrent s).rr.head) schedQuantumRr := by
      simp only [schedulerNext, hm, hcount, if_false]
    have hfront : (schedulerNext s).front = (yieldCurrent s).rr.pop := by
      rw [he]
      exact front_rr hm'
    refine ⟨?_, ?_, ?_, back, ?_⟩
    · rw [he]
      exact hm'
    · rw [he, hu]
      rfl
    · rw [he]
      rfl
    · rw [hfront, ← hl]
  | mlfq =>
    have hm' : (yieldCurrent s).schedMode = .mlfq := hy.mode.trans hm
    rw [front_mlfq hm] at hcount
    rw [front_mlfq hm'] at hback hcount'
    have hcons := RingBuffer.toList_eq_cons (hy.mlfq_wf 0) hcount'
    obtain ⟨hu, hl⟩ := List.cons_eq_cons.mp (hback.symm.trans hcons)
    have hfirst : ∀ s : Scheduler, (s.mlfq 0).count ≠ 0 → s.firstReady = some 0 := by
      intro s hne
      simp [firstReady, Nat.pos_of_ne_zero hne]
    have he : schedulerNext s = dispatch
        { (yieldCurrent s).setMlfq 0 ((yieldCurrent s).mlfq 0).pop with currentQueue := 0 }
        (((yieldCurrent s).mlfq 0).slots ((yieldCurrent s).mlfq 0).head) (mlfqQuantum 0) := by
      simp [schedulerNext, hm, mlfqHasReady, hfirst s hcount, hfirst _ hcount', queuePop, hcount']
    have hfront : (schedulerNext s).front = ((yieldCurrent s).mlfq 0).pop := by
      have hm'' : (schedulerNext s).schedMode = .mlfq := by
        rw [he]
        exact hm'
      rw [front_mlfq hm'', he]
      exact (setMlfq_mlfq (yieldCurrent s) 0 0 _).trans (if_pos rfl)
    refine ⟨?_, ?_, ?_, back, ?_⟩
    · rw [he]
      exact hm'
    · rw [he, hu]
      rfl
    · rw [he]
      rfl
    · rw [hfront, ← hl]

/-! ## The calls -/

/-- The thread keeps its place in the first queue, and its rank falls by `k`. -/
structure Stands (s s' : Scheduler) (t k : ℕ) : Prop where
  mode : s'.schedMode = s.schedMode
  place : NotBack t s.front.toList s'.front.toList
  rank : s'.frontRank t + k ≤ s.frontRank t

theorem Waits.stands (h : Waits s s' t) : Stands s s' t 0 := ⟨h.mode, h.place, h.frontRank_le⟩

theorem Waits.then_stands {k : ℕ} (h : Waits s s' t) (h' : Stands s' s'' t k) : Stands s s'' t k :=
  ⟨h'.mode.trans h.mode, h.place.trans h'.place, h'.rank.trans h.frontRank_le⟩

theorem Stands.then_waits {k : ℕ} (h : Stands s s' t k) (h' : Waits s' s'' t) : Stands s s'' t k :=
  ⟨h'.mode.trans h.mode, h.place.trans h'.place,
    (Nat.add_le_add_right h'.frontRank_le k).trans h.rank⟩

theorem Stands.mono {k k' : ℕ} (h : Stands s s' t k) (hk : k' ≤ k) : Stands s s' t k' :=
  ⟨h.mode, h.place, (Nat.add_le_add_left hk _).trans h.rank⟩

/-- A switch takes the thread itself, or the one in front of the queue. -/
theorem next_stands (h : s.Sound n) (ht : t ∈ s.front.toList) :
    (schedulerNext s).currentThread = some t ∨ Stands s (schedulerNext s) t s.remaining := by
  obtain ⟨u, l, hq⟩ := List.exists_cons_of_ne_nil (List.ne_nil_of_mem ht)
  obtain ⟨hmode, hcur, hquantum, back, hback⟩ := next_front h hq
  by_cases hut : u = t
  · exact Or.inl (hut ▸ hcur)
  · right
    have htl : t ∈ l := (List.mem_cons.mp (hq ▸ ht)).resolve_left fun he => hut he.symm
    have hidx : s.front.toList.idxOf t = l.idxOf t + 1 := by rw [hq, List.idxOf_cons_ne _ hut]
    have hidx' : (schedulerNext s).front.toList.idxOf t = l.idxOf t := by
      rw [hback, List.idxOf_append_of_mem htl]
    have hrem : (schedulerNext s).remaining = (frontQuantum s.schedMode).toNat := by
      rw [remaining, hcur]
      dsimp only
      rw [hquantum]
      cases s.schedMode <;> rfl
    refine ⟨hmode, ⟨?_, by omega⟩, ?_⟩
    · rw [hback]
      exact List.mem_append_left back htl
    · unfold frontRank
      rw [hmode, hidx', hidx, hrem, Nat.mul_succ]

/-- Every charge makes the wait shorter. -/
theorem charge_stands (h : s.Orderly n added) (ht : t ∈ s.front.toList) :
    (chargeQuantum s).currentThread = some t ∨ Stands s (chargeQuantum s) t 1 := by
  rcases Option.eq_none_or_eq_some s.currentThread with hcur | ⟨c, hcur⟩
  · rw [chargeQuantum_of_none hcur]
    exact (next_stands h.toSound ht).imp_right fun hs => hs.mono s.remaining_pos
  · rw [chargeQuantum_of_some hcur]
    set s₀ : Scheduler := { s with quantumRemaining := s.quantumRemaining - 1 } with hs₀
    have h₀ : s₀.Orderly n added := h.congr rfl rfl rfl rfl rfl rfl
    have hrem : s.remaining = max 1 s.quantumRemaining.toNat := by rw [remaining, hcur]
    have hrem₀ : s₀.remaining = max 1 (s.quantumRemaining - 1).toNat := by
      rw [remaining, show s₀.currentThread = some c from hcur]
    have hplace : NotBack t s.front.toList s₀.front.toList := .refl ht
    split_ifs with hq
    · have hgrow := Grows.demoteCurrent s₀ c
      have hw₀ : Waits s s₀ t := ⟨rfl, hplace, by omega⟩
      have hw : Waits s (demoteCurrent s₀ c) t := hw₀.trans (hgrow.waits hplace.mem)
      exact (next_stands (h₀.sound_demote hcur) hw.place.mem).imp_right fun hs =>
        hw.then_stands (hs.mono (remaining_pos _))
    · refine Or.inr ⟨rfl, hplace, ?_⟩
      have hidx : s₀.front = s.front := rfl
      have hmode : s₀.schedMode = s.schedMode := rfl
      unfold frontRank
      rw [hidx, hmode, hrem, hrem₀]
      omega

theorem tick_stands (h : s.Orderly n added) (ht : t ∈ s.front.toList) (tick : ℤ) :
    (schedulerTick s tick).currentThread = some t ∨ Stands s (schedulerTick s tick) t 1 := by
  obtain ⟨b, hcase⟩ := schedulerTick_cases s tick
  set s₀ : Scheduler := { s with lastBoostTick := b }
  have h₀ : s₀.Orderly n added := h.congr rfl rfl rfl rfl rfl rfl
  have hgrow : Grows s s₀ := .of_eq rfl rfl rfl rfl rfl
  have hw : Waits s s₀ t := hgrow.waits ht
  have hcharge := charge_stands h₀ hw.place.mem
  rcases hcase with he | ⟨-, he⟩ <;> rw [he]
  · exact hcharge.imp_right fun hs => hw.then_stands hs
  · have hboost := Grows.priorityBoost (chargeQuantum s₀) tick
    refine hcharge.imp (fun hc => hboost.current.trans hc) fun hs => ?_
    exact (hw.then_stands hs).then_waits (hboost.waits hs.place.mem)

theorem block_stands (h : s.Orderly n added) (ht : t ∈ s.front.toList) {u : ℕ} (hu : t ≠ u)
    (reason : BlockReason) :
    (schedulerBlock (s.setTcb u fun c => threadBlock c reason) u).currentThread = some t ∨
      Stands s (schedulerBlock (s.setTcb u fun c => threadBlock c reason) u) t 0 := by
  have hset : Waits s (s.setTcb u fun c => threadBlock c reason) t := (Grows.setTcb s u _).waits ht
  by_cases hcur : s.currentThread = some u
  · obtain ⟨w, -, -⟩ := withdrawn_blockCurrent h.toSound hcur (h.current_not_queued hcur) reason
    rw [schedulerBlock_current hcur]
    have hw : Waits s (blockCurrent (s.setTcb u fun c => threadBlock c reason) u) t := by
      obtain ⟨hmode, hnone, -, hrr, hmlfq⟩ :=
        blockCurrent_rest (s.setTcb u fun c => threadBlock c reason) u
      refine ⟨hmode, ?_, ?_⟩
      · rw [front, front, hmode, hrr, hmlfq]
        exact .refl ht
      · rw [remaining, hnone]
        exact s.remaining_pos
    exact (next_stands (w.sound h.toSound) hw.place.mem).imp_right fun hs =>
      hw.then_stands (hs.mono (Nat.zero_le _))
  · right
    rw [(withdrawn_block_queued h.rr_wf h.mlfq_wf hcur reason).1]
    have hrem := waits_removeQueued (s := s.setTcb u fun c => threadBlock c reason) h.rr_wf h.mlfq_wf
      hset.place.mem hu
    exact (hset.trans hrem).stands

theorem terminate_waits (h : s.Orderly n added) (ht : t ∈ s.front.toList) {u : ℕ} (hu : t ≠ u) :
    Waits s (schedulerTerminate s u) t := by
  unfold schedulerTerminate
  set s₀ := if s.currentThread = some u then { s with currentThread := none } else s with hs₀
  have hw : Waits s s₀ t ∧ s₀.rr = s.rr ∧ s₀.mlfq = s.mlfq := by
    rw [hs₀]
    split_ifs
    · exact ⟨⟨rfl, .refl ht, s.remaining_pos⟩, rfl, rfl⟩
    · exact ⟨(Grows.refl s).waits ht, rfl, rfl⟩
  obtain ⟨hw, hrr, hmlfq⟩ := hw
  have hr := hw.trans (waits_removeQueued (hrr ▸ h.rr_wf) (hmlfq ▸ h.mlfq_wf) hw.place.mem hu)
  exact hr.trans ((Grows.setTcb _ u _).waits hr.place.mem)

end Scheduler

/-- The call is not about thread `t`. -/
def Spares (t : ℕ) : SchedCall → Prop
  | .add u | .unblock u | .block u _ | .terminate u => t ≠ u
  | .next | .tick _ | .priorityBoost _ => True

def SchedCall.isTick : SchedCall → Bool
  | .tick _ => true
  | _ => false

/-- A call on other threads leaves a thread of the first queue its place, unless it gives it the
processor, and a tick lowers the rank. -/
theorem front_schedCall {s : Scheduler} {n t : ℕ} {added : Set ℕ} (h : s.Orderly n added)
    {call : SchedCall} (hspare : Spares t call) (ht : t ∈ s.front.toList) :
    (schedCall s call).currentThread = some t ∨
      s.Stands (schedCall s call) t (if call.isTick then 1 else 0) := by
  cases call with
  | add u => exact Or.inr ((Scheduler.Grows.schedulerAdd s u).waits ht).stands
  | unblock u =>
    exact Or.inr (((Scheduler.Grows.setTcb s u threadUnblock).trans (.schedulerAdd _ u)).waits ht).stands
  | next =>
    exact (Scheduler.next_stands h.toSound ht).imp_right fun hs => hs.mono (Nat.zero_le _)
  | block u reason => exact Scheduler.block_stands h ht hspare reason
  | terminate u => exact Or.inr (Scheduler.terminate_waits h ht hspare).stands
  | tick tick => exact Scheduler.tick_stands h ht tick
  | priorityBoost tick => exact Or.inr ((Scheduler.Grows.priorityBoost s tick).waits ht).stands

/-! ## Runs -/

/-- The largest quantum of a mode. -/
def maxQuantum : SchedMode → ℤ
  | .rr => schedQuantumRr
  | .mlfq => schedQuantumMlfqQ2

/-- The mode stays, and so does the bound on the quantum. -/
structure Turn (s s' : Scheduler) : Prop where
  mode : s'.schedMode = s.schedMode
  quantum : s.quantumRemaining ≤ maxQuantum s.schedMode →
    s'.quantumRemaining ≤ maxQuantum s.schedMode

namespace Turn

variable {s s' s'' : Scheduler} {n : ℕ} {added : Set ℕ}

theorem trans (h : Turn s s') (h' : Turn s' s'') : Turn s s'' :=
  ⟨h'.mode.trans h.mode, fun hq => h.mode ▸ h'.quantum (h.mode.symm ▸ h.quantum hq)⟩

theorem of_slice (h : SameSlice s s') : Turn s s' := ⟨h.mode, fun hq => h.quantum ▸ hq⟩

theorem of_grows (h : Scheduler.Grows s s') : Turn s s' := ⟨h.mode, fun hq => h.quantum ▸ hq⟩

theorem next (h : s.Sound n) : Turn s (schedulerNext s) := by
  rcases Scheduler.schedulerNext_dispatches h with ⟨-, he⟩ | ⟨t, sw, hfull⟩
  · rw [he]
    exact ⟨rfl, id⟩
  · refine ⟨sw.mode, fun _ => ?_⟩
    rw [hfull, Scheduler.fullQuantum, sw.mode]
    cases s.schedMode with
    | rr => exact le_rfl
    | mlfq =>
      change mlfqQuantum _ ≤ _
      unfold mlfqQuantum
      split_ifs <;> decide

theorem charge (h : s.Orderly n added) : Turn s (chargeQuantum s) := by
  rcases Option.eq_none_or_eq_some s.currentThread with hcur | ⟨c, hcur⟩
  · rw [chargeQuantum_of_none hcur]
    exact next h.toSound
  · rw [chargeQuantum_of_some hcur]
    set s₀ : Scheduler := { s with quantumRemaining := s.quantumRemaining - 1 }
    have h₀ : s₀.Orderly n added := h.congr rfl rfl rfl rfl rfl rfl
    have hcharged : Turn s s₀ := by
      refine ⟨rfl, fun hq => ?_⟩
      change s.quantumRemaining - 1 ≤ _
      omega
    split_ifs
    · have hdem := hcharged.trans (of_grows (.demoteCurrent s₀ c))
      exact hdem.trans (next (h₀.sound_demote hcur))
    · exact hcharged

theorem tick (h : s.Orderly n added) (tick : ℤ) : Turn s (schedulerTick s tick) := by
  obtain ⟨b, hcase⟩ := schedulerTick_cases s tick
  have h₀ : ({ s with lastBoostTick := b } : Scheduler).Orderly n added :=
    h.congr rfl rfl rfl rfl rfl rfl
  have hstart : Turn s { s with lastBoostTick := b } := ⟨rfl, id⟩
  have hcharge := hstart.trans (charge h₀)
  rcases hcase with he | ⟨-, he⟩ <;> rw [he]
  · exact hcharge
  · exact hcharge.trans (of_grows (.priorityBoost _ tick))

theorem schedCall (h : s.Orderly n added) (call : SchedCall) : Turn s (schedCall s call) := by
  cases call with
  | add t => exact of_grows (.schedulerAdd s t)
  | unblock t => exact of_slice (.schedulerUnblock s t)
  | next => exact next h.toSound
  | block t reason =>
    have hset : Turn s (s.setTcb t fun c => threadBlock c reason) := ⟨rfl, id⟩
    by_cases hcur : s.currentThread = some t
    · obtain ⟨w, -, -⟩ :=
        Scheduler.withdrawn_blockCurrent h.toSound hcur (h.current_not_queued hcur) reason
      have hblock : Turn (s.setTcb t fun c => threadBlock c reason)
          (Scheduler.blockCurrent (s.setTcb t fun c => threadBlock c reason) t) := by
        unfold Scheduler.blockCurrent
        split_ifs <;> exact ⟨rfl, id⟩
      change Turn s (schedulerBlock _ t)
      rw [Scheduler.schedulerBlock_current hcur]
      exact (hset.trans hblock).trans (next (w.sound h.toSound))
    · change Turn s (schedulerBlock _ t)
      rw [(Scheduler.withdrawn_block_queued h.rr_wf h.mlfq_wf hcur reason).1]
      exact hset.trans (of_slice (.removeQueued _ t))
  | terminate t => exact of_slice (.schedulerTerminate s t)
  | tick tick => exact Turn.tick h tick
  | priorityBoost tick => exact of_grows (.priorityBoost s tick)

end Turn

/-- Each call is one its caller may make in the state the calls before it lead to, from `s` on. -/
def AllowedFrom (s : Scheduler) (n : ℕ) (calls : List SchedCall) : Prop :=
  ∀ pre call, pre ++ [call] <+: calls → CallAllowed (pre.foldl schedCall s) n call

theorem AllowedFrom.cons {s : Scheduler} {n : ℕ} {call : SchedCall} {calls : List SchedCall}
    (h : AllowedFrom s n (call :: calls)) :
    CallAllowed s n call ∧ AllowedFrom (schedCall s call) n calls :=
  ⟨h [] call (List.prefix_append [call] calls), fun pre call' hpre =>
    h (call :: pre) call' ((List.prefix_cons_inj call).mpr hpre)⟩

variable {s₀ : Scheduler} {mode : SchedMode} {n t : ℕ}

theorem schedRun_foldl (s₀ : Scheduler) (mode : SchedMode) (calls rest : List SchedCall) :
    schedRun s₀ mode (calls ++ rest) = rest.foldl schedCall (schedRun s₀ mode calls) :=
  List.foldl_append

theorem RunAllowed.from {calls rest : List SchedCall} (h : RunAllowed s₀ mode n (calls ++ rest)) :
    AllowedFrom (schedRun s₀ mode calls) n rest := by
  intro pre call hpre
  rw [← schedRun_foldl]
  refine h (calls ++ pre) call ?_
  rw [List.append_assoc]
  exact (List.prefix_append_right_inj calls).mpr hpre

theorem turn_schedRun (hn : n ≤ maxThreads)
    (hinit : ∀ t < n, (s₀.tcb t).state ≠ .running ∧ (s₀.tcb t).mlfqLevel = -1)
    {calls : List SchedCall} (hcalls : RunAllowed s₀ mode n calls) :
    Turn (schedulerInit s₀ mode) (schedRun s₀ mode calls) := by
  induction calls using List.reverseRecOn with
  | nil => exact ⟨rfl, id⟩
  | append_singleton calls call ih =>
    have hpre := hcalls.of_prefix (List.prefix_append calls [call])
    rw [schedRun_append]
    exact (ih hpre).trans (Turn.schedCall (orderly_schedRun hn hinit hpre) call)

theorem mode_schedRun (hn : n ≤ maxThreads)
    (hinit : ∀ t < n, (s₀.tcb t).state ≠ .running ∧ (s₀.tcb t).mlfqLevel = -1)
    {calls : List SchedCall} (hcalls : RunAllowed s₀ mode n calls) :
    (schedRun s₀ mode calls).schedMode = mode :=
  (turn_schedRun hn hinit hcalls).mode

theorem quantum_schedRun (hn : n ≤ maxThreads)
    (hinit : ∀ t < n, (s₀.tcb t).state ≠ .running ∧ (s₀.tcb t).mlfqLevel = -1)
    {calls : List SchedCall} (hcalls : RunAllowed s₀ mode n calls) :
    (schedRun s₀ mode calls).quantumRemaining ≤ maxQuantum mode := by
  refine (turn_schedRun hn hinit hcalls).quantum ?_
  cases mode with
  | rr => exact le_rfl
  | mlfq => exact (by decide : schedQuantumMlfqQ0 ≤ schedQuantumMlfqQ2)

/-! ## Round robin -/

/-- Thread `t` waits in the first queue before `calls`, which are allowed and on other threads. -/
structure FrontRun (t n : ℕ) (s : Scheduler) (calls : List SchedCall) : Prop where
  orderly : s.Orderly n ∅
  place : t ∈ s.front.toList
  allowed : AllowedFrom s n calls
  spares : ∀ call ∈ calls, Spares t call

theorem FrontRun.step {s : Scheduler} {call : SchedCall} {calls : List SchedCall}
    (h : FrontRun t n s (call :: calls)) :
    (schedCall s call).currentThread = some t ∨
      FrontRun t n (schedCall s call) calls ∧
        s.Stands (schedCall s call) t (if call.isTick then 1 else 0) := by
  obtain ⟨hcall, hallowed⟩ := h.allowed.cons
  refine (front_schedCall h.orderly (h.spares call List.mem_cons_self) h.place).imp_right fun hs => ?_
  exact ⟨⟨(h.orderly.schedCall hcall).subset (Set.empty_subset _), hs.place.mem, hallowed,
    fun c hc => h.spares c (List.mem_cons_of_mem call hc)⟩, hs⟩

/-- In round robin mode a thread at position `k` is the current thread after at most
`4 * (k + 1)` ticks, whatever happens to the others, and does not move back before. -/
theorem round_robin_bounded_waiting (hn : n ≤ maxThreads)
    (hinit : ∀ t < n, (s₀.tcb t).state ≠ .running ∧ (s₀.tcb t).mlfqLevel = -1)
    {calls rest : List SchedCall} (hcalls : RunAllowed s₀ .rr n (calls ++ rest))
    (hspare : ∀ call ∈ rest, Spares t call) {k : ℕ}
    (hk : (schedRun s₀ .rr calls).rr.toList[k]? = some t) :
    (schedQuantumRr * (k + 1) ≤ rest.countP SchedCall.isTick → ∃ pre, pre <+: rest ∧
      (schedRun s₀ .rr (calls ++ pre)).currentThread = some t) ∧
    ∀ pre call, pre ++ [call] <+: rest →
      (∀ p, p <+: pre ++ [call] → (schedRun s₀ .rr (calls ++ p)).currentThread ≠ some t) →
        Ranking.NotBack t (schedRun s₀ .rr (calls ++ pre)).rr.toList
          (schedRun s₀ .rr (calls ++ (pre ++ [call]))).rr.toList := by
  have hbefore := hcalls.of_prefix (List.prefix_append calls rest)
  have hord := orderly_schedRun hn hinit hbefore
  have hmode : ∀ {pre}, pre <+: rest → (schedRun s₀ .rr (calls ++ pre)).schedMode = .rr :=
    fun hpre => mode_schedRun hn hinit
      (hcalls.of_prefix ((List.prefix_append_right_inj calls).mpr hpre))
  have hm := mode_schedRun hn hinit hbefore
  have hmem : t ∈ (schedRun s₀ .rr calls).front.toList := by
    rw [Scheduler.front_rr hm]
    exact List.mem_of_getElem? hk
  have h : FrontRun t n (schedRun s₀ .rr calls) rest :=
    ⟨hord.subset (Set.empty_subset _), hmem, hcalls.from, hspare⟩
  constructor
  · intro hticks
    have hnodup : (schedRun s₀ .rr calls).rr.toList.Nodup := by
      have := hord.nodup
      rwa [Scheduler.queued_rr hm, Multiset.coe_nodup] at this
    obtain ⟨hlt, hget⟩ := List.getElem?_eq_some_iff.mp hk
    have hidx : (schedRun s₀ .rr calls).front.toList.idxOf t = k := by
      rw [Scheduler.front_rr hm, ← hget]
      exact hnodup.idxOf_getElem k hlt
    have hrem : (schedRun s₀ .rr calls).remaining ≤ 4 := by
      have hq : (schedRun s₀ .rr calls).quantumRemaining ≤ 4 := quantum_schedRun hn hinit hbefore
      unfold Scheduler.remaining
      split <;> omega
    have hfour : (Scheduler.frontQuantum .rr).toNat = 4 := rfl
    have hrank : (schedRun s₀ .rr calls).frontRank t ≤ rest.countP SchedCall.isTick := by
      have hq : schedQuantumRr = 4 := rfl
      rw [hq] at hticks
      rw [Scheduler.frontRank, hm, hidx, hfour]
      omega
    obtain ⟨pre, hpre, hdone⟩ := Ranking.reaches (FrontRun t n)
      (fun s => s.currentThread = some t) (fun s => s.frontRank t)
      (fun s _ _ => s.frontRank_pos t)
      (fun s call calls hinv => hinv.step.imp_right fun hs => ⟨hs.1, hs.2.rank⟩) h hrank
    exact ⟨pre, hpre, by rw [schedRun_foldl]; exact hdone⟩
  · intro pre call hpre hnot
    obtain ⟨tail, htail⟩ := hpre
    have hrun : FrontRun t n (schedRun s₀ .rr (calls ++ pre)) ([call] ++ tail) := by
      rw [schedRun_foldl]
      refine Ranking.keeps (FrontRun t n) (fun s => s.currentThread = some t)
        (fun s call calls hinv => hinv.step.imp_right And.left) pre ?_ fun p hp _ => ?_
      · rw [← List.append_assoc, htail]
        exact h
      · rw [← schedRun_foldl]
        exact hnot p (hp.trans (List.prefix_append pre [call]))
    have hstep := hrun.step
    have hlast : schedCall (schedRun s₀ .rr (calls ++ pre)) call =
        schedRun s₀ .rr (calls ++ (pre ++ [call])) := by
      rw [← schedRun_append, List.append_assoc]
    rw [hlast] at hstep
    have hplace := (hstep.resolve_left (hnot _ List.prefix_rfl)).2.place
    rw [Scheduler.front_rr (hmode ⟨[call] ++ tail, by rw [← List.append_assoc, htail]⟩),
      Scheduler.front_rr (hmode ⟨tail, htail⟩)] at hplace
    exact hplace

/-- The scheduler may always be ticked. -/
theorem RunAllowed.ticks {calls : List SchedCall} (h : RunAllowed s₀ mode n calls)
    (ticks : List ℤ) : RunAllowed s₀ mode n (calls ++ ticks.map .tick) := by
  induction ticks using List.reverseRecOn with
  | nil => simpa using h
  | append_singleton ticks tick ih =>
    rw [List.map_append, ← List.append_assoc]
    exact ih.append (.tick tick) trivial

/-- Two threads are in front of thread 2, one of them running. -/
theorem round_robin_bounded_waiting_third :
    let calls : List SchedCall := [.add 0, .add 1, .add 2, .next]
    (schedRun freshScheduler .rr calls).rr.toList[1]? = some 2 ∧
      ∃ pre, pre <+: ([1, 2, 3, 4, 5, 6, 7, 8] : List ℤ).map .tick ∧
        (schedRun freshScheduler .rr (calls ++ pre)).currentThread = some 2 := by
  intro calls
  have h₀ : RunAllowed freshScheduler .rr 3 [] := fun pre call hpre =>
    absurd (List.prefix_nil.mp hpre) (List.append_ne_nil_of_right_ne_nil pre (by simp))
  have h₁ := ((h₀.append (.add 0) (by decide)).append (.add 1) (by decide)).append (.add 2) (by decide)
  have hcalls : RunAllowed freshScheduler .rr 3
      (calls ++ ([1, 2, 3, 4, 5, 6, 7, 8] : List ℤ).map .tick) :=
    (h₁.append .next trivial).ticks [1, 2, 3, 4, 5, 6, 7, 8]
  have hk : (schedRun freshScheduler .rr calls).rr.toList[1]? = some 2 := by decide
  have hspare : ∀ call ∈ ([1, 2, 3, 4, 5, 6, 7, 8] : List ℤ).map SchedCall.tick, Spares 2 call := by
    intro call hcall
    obtain ⟨tick, -, rfl⟩ := List.mem_map.mp hcall
    trivial
  exact ⟨hk, (round_robin_bounded_waiting (by decide) (fun _ _ => ⟨ThreadState.noConfusion, rfl⟩)
    hcalls hspare hk).1 (by decide)⟩

end FleetOS
