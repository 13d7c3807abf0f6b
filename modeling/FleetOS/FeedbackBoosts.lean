import FleetOS.QueueOrder

/-!
# No starvation in feedback mode

With ticks `0`, `1`, `2`, … the first boost comes at the end of tick `31`, since a `last_boost_tick`
of `0` means that there is none yet, and the others every 30 ticks (`Clocked`). Until then a thread
of queue `1` or `2` may wait; the boost moves it to queue `0` (`mem_front_priorityBoost`), where it
waits for the thread that runs, which can have the long quantum of queue `2`, and for those in front
of it (`frontRank`). The rank of a waiting thread adds the two up (`feedbackRank`).
-/

namespace FleetOS

namespace Scheduler

variable {s : Scheduler} {n t : ℕ} {added : Set ℕ}

/-! ## The queues behind the first one are emptied -/

theorem boostStep_mlfq (s : Scheduler) {i j : ℤ} (hj : j ≠ 0) :
    (s.boostStep i).mlfq j = if j = i then (s.mlfq i).pop else s.mlfq j := by
  have hpush : (s.boostStep i).mlfq j = (s.boostPop i).mlfq j :=
    (setMlfq_mlfq (s.boostPop i) 0 j _).trans (if_neg hj)
  rw [hpush]
  exact setMlfq_mlfq s i j _

/-- As many rounds as there are threads empty queue `i`, and the other queue stays as it is. -/
theorem boostQueue_mlfq {i : ℤ} (hi : i ≠ 0) :
    ∀ (fuel : ℕ) (s : Scheduler), (s.mlfq i).count ≤ fuel →
      ((boostQueue i fuel s).mlfq i).count = 0 ∧
        ∀ j, j ≠ 0 → j ≠ i → (boostQueue i fuel s).mlfq j = s.mlfq j
  | 0, _, hfuel => ⟨Nat.le_zero.mp hfuel, fun _ _ _ => rfl⟩
  | fuel + 1, s, hfuel => by
    rw [boostQueue_succ]
    split_ifs with hne
    · exact ⟨hne, fun _ _ _ => rfl⟩
    · have hcount : ((s.boostStep i).mlfq i).count ≤ fuel := by
        rw [boostStep_mlfq s hi, if_pos rfl]
        change (s.mlfq i).count - 1 ≤ fuel
        omega
      obtain ⟨hempty, hother⟩ := boostQueue_mlfq hi fuel (s.boostStep i) hcount
      refine ⟨hempty, fun j hj hji => ?_⟩
      rw [hother j hj hji, boostStep_mlfq s hj, if_neg hji]

theorem queued_boostQueue {i : ℤ} (hi : 0 ≤ i ∧ i ≤ 2) :
    ∀ (fuel : ℕ) (s : Scheduler), s.schedMode = .mlfq → s.Disciplined n →
      (boostQueue i fuel s).queued = s.queued
  | 0, _, _, _ => rfl
  | fuel + 1, s, hm, h => by
    rw [boostQueue_succ]
    split_ifs with hne
    · rfl
    · have b := boosted hi hm h.toSound hne
      exact (queued_boostQueue hi fuel _ (b.mode.trans hm) (b.frame h).disciplined).trans b.queued

theorem queued_priorityBoost (h : s.Disciplined n) (hm : s.schedMode = .mlfq) (tick : ℤ) :
    (schedulerPriorityBoost s tick).queued = s.queued := by
  set s₀ : Scheduler := { s with
    lastBoostTick := tick, priorityBoostCount := s.priorityBoostCount + 1 } with hs₀
  have h₀ : Frame s s₀ n ∅ := h.congr rfl rfl rfl rfl rfl rfl
  have h₁ := frame_boostQueue (i := 1) (by omega) (s₀.mlfq 1).count s₀ hm h₀.disciplined
  have he : schedulerPriorityBoost s tick = boostQueue 2
      ((boostQueue 1 (s₀.mlfq 1).count s₀).mlfq 2).count (boostQueue 1 (s₀.mlfq 1).count s₀) := by
    simp only [schedulerPriorityBoost, hm, hs₀]
  rw [he, queued_boostQueue (by omega) _ _ (h₁.mode.trans hm) h₁.disciplined]
  exact queued_boostQueue (by omega) _ s₀ hm h₀.disciplined

/-- After a boost every queued thread is in queue `0`. -/
theorem mem_front_priorityBoost (h : s.Disciplined n) (hm : s.schedMode = .mlfq) (tick : ℤ)
    (ht : t ∈ s.queued) : t ∈ ((schedulerPriorityBoost s tick).mlfq 0).toList := by
  set s₀ : Scheduler := { s with
    lastBoostTick := tick, priorityBoostCount := s.priorityBoostCount + 1 } with hs₀
  have h₀ : Frame s s₀ n ∅ := h.congr rfl rfl rfl rfl rfl rfl
  have h₁ := frame_boostQueue (i := 1) (by omega) (s₀.mlfq 1).count s₀ hm h₀.disciplined
  set s₁ := boostQueue 1 (s₀.mlfq 1).count s₀ with hs₁
  have hm₁ : s₁.schedMode = .mlfq := h₁.mode.trans hm
  have he : schedulerPriorityBoost s tick = boostQueue 2 (s₁.mlfq 2).count s₁ := by
    simp only [schedulerPriorityBoost, hm, hs₁, hs₀]
  have hm₂ : (boostQueue 2 (s₁.mlfq 2).count s₁).schedMode = .mlfq :=
    (frame_boostQueue (i := 2) (by omega) _ s₁ hm₁ h₁.disciplined).mode.trans hm₁
  have hone := (boostQueue_mlfq (i := 1) (by decide) (s₀.mlfq 1).count s₀ le_rfl).1
  obtain ⟨htwo, hother⟩ := boostQueue_mlfq (i := 2) (by decide) (s₁.mlfq 2).count s₁ le_rfl
  rw [← hother 1 (by decide) (by decide)] at hone
  rw [← queued_priorityBoost h hm tick, he, queued_mlfq hm₂, (RingBuffer.toList_eq_nil _).mpr hone,
    (RingBuffer.toList_eq_nil _).mpr htwo] at ht
  rw [he]
  simpa using ht

/-! ## Queued threads stay queued -/

theorem queued_next (h : s.Sound n) (ht : t ∈ s.queued) :
    (schedulerNext s).currentThread = some t ∨ t ∈ (schedulerNext s).queued := by
  rcases schedulerNext_cases h with ⟨-, he⟩ | ⟨u, sw⟩
  · rw [he]
    exact Or.inr ht
  · refine (sw.mem.mpr (Or.inr ht)).imp_left fun hu => ?_
    rw [sw.current, hu]

theorem queued_charge (h : s.Orderly n added) (ht : t ∈ s.queued) :
    (chargeQuantum s).currentThread = some t ∨ t ∈ (chargeQuantum s).queued := by
  rcases Option.eq_none_or_eq_some s.currentThread with hcur | ⟨c, hcur⟩
  · rw [chargeQuantum_of_none hcur]
    exact queued_next h.toSound ht
  · rw [chargeQuantum_of_some hcur]
    set s₀ : Scheduler := { s with quantumRemaining := s.quantumRemaining - 1 }
    have h₀ : s₀.Orderly n added := h.congr rfl rfl rfl rfl rfl rfl
    split_ifs
    · refine queued_next (h₀.sound_demote hcur) ?_
      by_cases hm : s₀.schedMode = .mlfq
      · have d := demoted h₀.toSound hm (h₀.current_lt c hcur) (h₀.current c hcur)
        rw [d.queued]
        exact Multiset.mem_cons_of_mem ht
      · have he : demoteCurrent s₀ c = s₀ := if_neg fun hd => hm hd.1
        rw [he]
        exact ht
    · exact Or.inr ht

theorem queued_tick (h : s.Orderly n added) (ht : t ∈ s.queued) (tick : ℤ) :
    (schedulerTick s tick).currentThread = some t ∨ t ∈ (schedulerTick s tick).queued := by
  obtain ⟨b, hcase⟩ := schedulerTick_cases s tick
  have h₀ : ({ s with lastBoostTick := b } : Scheduler).Orderly n added :=
    h.congr rfl rfl rfl rfl rfl rfl
  have hcharge := queued_charge h₀ (t := t) ht
  rcases hcase with he | ⟨hm, he⟩ <;> rw [he]
  · exact hcharge
  · rw [queued_priorityBoost h₀.chargeQuantum.disciplined ((Turn.charge h₀).mode.trans hm)]
    exact hcharge.imp_left fun hc => (Grows.priorityBoost _ tick).current.trans hc

/-! ## The tick of the last boost -/

theorem lastBoost_next (s : Scheduler) : (schedulerNext s).lastBoostTick = s.lastBoostTick := by
  have hyield : (yieldCurrent s).lastBoostTick = s.lastBoostTick := by
    unfold yieldCurrent
    repeat' split
    all_goals rfl
  unfold schedulerNext
  split
  · split_ifs
    · rfl
    · exact hyield
  · split_ifs
    · rfl
    · dsimp only
      split
      · exact hyield
      · split
        · exact hyield
        · exact hyield

theorem lastBoost_charge (s : Scheduler) : (chargeQuantum s).lastBoostTick = s.lastBoostTick := by
  have hdemote : ∀ (s : Scheduler) (c : ℕ), (demoteCurrent s c).lastBoostTick = s.lastBoostTick := by
    intro s c
    unfold demoteCurrent
    split
    · rfl
    · rfl
  unfold chargeQuantum
  split
  · exact lastBoost_next s
  · dsimp only
    split_ifs
    · exact (lastBoost_next _).trans (hdemote _ _)
    · rfl

theorem lastBoost_boostQueue (i : ℤ) :
    ∀ (fuel : ℕ) (s : Scheduler), (boostQueue i fuel s).lastBoostTick = s.lastBoostTick
  | 0, _ => rfl
  | fuel + 1, s => by
    rw [boostQueue_succ]
    split_ifs
    · rfl
    · exact lastBoost_boostQueue i fuel _

theorem lastBoost_priorityBoost (s : Scheduler) (hm : s.schedMode = .mlfq) (tick : ℤ) :
    (schedulerPriorityBoost s tick).lastBoostTick = tick := by
  simp only [schedulerPriorityBoost, hm]
  exact (lastBoost_boostQueue 2 _ _).trans (lastBoost_boostQueue 1 _ _)

theorem lastBoost_add (s : Scheduler) (t : ℕ) : (schedulerAdd s t).lastBoostTick = s.lastBoostTick := by
  have hregister : ∀ s : Scheduler, (s.register t).lastBoostTick = s.lastBoostTick := by
    intro s
    unfold Scheduler.register
    split_ifs <;> rfl
  unfold schedulerAdd
  split
  · split_ifs
    · rfl
    · rfl
    · exact hregister _
  · dsimp only
    split_ifs
    · rfl
    · exact hregister _

theorem lastBoost_removeQueued (s : Scheduler) (t : ℕ) :
    (removeQueued s t).lastBoostTick = s.lastBoostTick := by
  unfold removeQueued
  repeat' split
  all_goals rfl

theorem lastBoost_block (s : Scheduler) (t : ℕ) :
    (schedulerBlock s t).lastBoostTick = s.lastBoostTick := by
  unfold schedulerBlock
  split_ifs
  · rfl
  · exact lastBoost_next _
  · exact lastBoost_next _
  · exact lastBoost_removeQueued s t

theorem lastBoost_terminate (s : Scheduler) (t : ℕ) :
    (schedulerTerminate s t).lastBoostTick = s.lastBoostTick := by
  unfold schedulerTerminate
  refine (lastBoost_removeQueued _ t).trans ?_
  split_ifs <;> rfl

end Scheduler

/-! ## The clock -/

/-- The ticks of the calls are `tick`, `tick + 1`, …, and the boost is left to them. -/
def TicksFrom : ℤ → List SchedCall → Prop
  | _, [] => True
  | tick, .tick t :: calls => t = tick ∧ TicksFrom (tick + 1) calls
  | _, .priorityBoost _ :: _ => False
  | tick, _ :: calls => TicksFrom tick calls

/-- The tick after a call. -/
def nextTick (tick : ℤ) (call : SchedCall) : ℤ := if call.isTick then tick + 1 else tick

/-- A scheduler and the tick to come. -/
def clockCall (m : Scheduler × ℤ) (call : SchedCall) : Scheduler × ℤ :=
  (schedCall m.1 call, nextTick m.2 call)

/-- There was no boost yet, or the last one is less than 30 ticks ago. -/
def Clocked (s : Scheduler) (tick : ℤ) : Prop :=
  (s.lastBoostTick = 0 ∧ 0 ≤ tick ∧ tick ≤ 1) ∨
    (0 < s.lastBoostTick ∧ s.lastBoostTick < tick ∧ tick ≤ s.lastBoostTick + 30)

/-- The ticks up to the next boost, that of the boost included. -/
def boostDue (s : Scheduler) (tick : ℤ) : ℤ :=
  if s.lastBoostTick = 0 then 32 - tick else s.lastBoostTick + 31 - tick

theorem TicksFrom.cons {tick : ℤ} {call : SchedCall} {calls : List SchedCall}
    (h : TicksFrom tick (call :: calls)) :
    (∀ t, call = .tick t → t = tick) ∧ (∀ t, call ≠ .priorityBoost t) ∧
      TicksFrom (nextTick tick call) calls := by
  cases call with
  | tick t =>
    refine ⟨fun t' he => ?_, fun t' he => (by cases he), h.2⟩
    rw [← h.1]
    exact (SchedCall.tick.inj he).symm
  | priorityBoost t => exact absurd h id
  | add t => exact ⟨fun t he => (by cases he), fun t he => (by cases he), h⟩
  | unblock t => exact ⟨fun t he => (by cases he), fun t he => (by cases he), h⟩
  | next => exact ⟨fun t he => (by cases he), fun t he => (by cases he), h⟩
  | block t reason => exact ⟨fun t he => (by cases he), fun t he => (by cases he), h⟩
  | terminate t => exact ⟨fun t he => (by cases he), fun t he => (by cases he), h⟩

theorem Clocked.due {s : Scheduler} {tick : ℤ} (h : Clocked s tick) :
    1 ≤ boostDue s tick ∧ boostDue s tick ≤ 32 := by
  unfold boostDue
  unfold Clocked at h
  split_ifs <;> omega

/-- The two counters of a tick, without a boost. -/
theorem Clocked.succ {s s' : Scheduler} {tick : ℤ} (h : Clocked s tick)
    (hlast : s'.lastBoostTick = if s.lastBoostTick = 0 then tick else s.lastBoostTick)
    (hno : tick - s'.lastBoostTick < 30) :
    Clocked s' (tick + 1) ∧ boostDue s' (tick + 1) + 1 ≤ boostDue s tick := by
  unfold boostDue
  unfold Clocked at h ⊢
  split_ifs at hlast ⊢ <;> omega

/-- A tick moves the clock, and the boost closer unless it comes now. -/
theorem Clocked.tick {s : Scheduler} {n : ℕ} {added : Set ℕ} (h : s.Orderly n added)
    (hm : s.schedMode = .mlfq) {tick : ℤ} (hc : Clocked s tick) :
    Clocked (schedulerTick s tick) (tick + 1) ∧ ∀ t ∈ (schedulerTick s tick).queued,
      t ∈ ((schedulerTick s tick).mlfq 0).toList ∨
        boostDue (schedulerTick s tick) (tick + 1) + 1 ≤ boostDue s tick := by
  unfold schedulerTick
  set s₀ := if s.schedMode = .mlfq ∧ s.lastBoostTick = 0 then { s with lastBoostTick := tick }
    else s with hs₀
  have h₀ : s₀.Orderly n added ∧ s₀.schedMode = .mlfq ∧
      s₀.lastBoostTick = if s.lastBoostTick = 0 then tick else s.lastBoostTick := by
    rw [hs₀]
    by_cases hz : s.lastBoostTick = 0
    · rw [if_pos ⟨hm, hz⟩, if_pos hz]
      exact ⟨h.congr rfl rfl rfl rfl rfl rfl, hm, rfl⟩
    · rw [if_neg fun hh => hz hh.2, if_neg hz]
      exact ⟨h, hm, rfl⟩
  obtain ⟨hord, hm₀, hlast⟩ := h₀
  have hcharge := hord.chargeQuantum
  have hmode : (chargeQuantum s₀).schedMode = .mlfq := (Turn.charge hord).mode.trans hm₀
  have hlast' := Scheduler.lastBoost_charge s₀
  dsimp only
  by_cases hboost : s₀.schedMode = .mlfq ∧ 30 ≤ tick - s₀.lastBoostTick
  · rw [if_pos hboost]
    have hnew := Scheduler.lastBoost_priorityBoost (chargeQuantum s₀) hmode tick
    refine ⟨?_, fun t ht => Or.inl ?_⟩
    · unfold Clocked at hc ⊢
      rw [hnew]
      split_ifs at hlast <;> omega
    · rw [Scheduler.queued_priorityBoost hcharge.disciplined hmode] at ht
      exact Scheduler.mem_front_priorityBoost hcharge.disciplined hmode tick ht
  · rw [if_neg hboost]
    have hno : tick - (chargeQuantum s₀).lastBoostTick < 30 := by
      rw [hlast']
      exact not_le.mp fun hle => hboost ⟨hm₀, hle⟩
    have hsucc := hc.succ (hlast'.trans hlast) hno
    exact ⟨hsucc.1, fun _ _ => Or.inr hsucc.2⟩

/-- The calls between the ticks leave the clock alone. -/
theorem lastBoost_schedCall (s : Scheduler) {call : SchedCall} (htick : call.isTick = false)
    (hboost : ∀ t, call ≠ .priorityBoost t) :
    (schedCall s call).lastBoostTick = s.lastBoostTick := by
  cases call with
  | tick t => cases htick
  | priorityBoost t => exact absurd rfl (hboost t)
  | add t => exact Scheduler.lastBoost_add s t
  | unblock t => exact Scheduler.lastBoost_add _ t
  | next => exact Scheduler.lastBoost_next s
  | block t reason => exact Scheduler.lastBoost_block _ t
  | terminate t => exact Scheduler.lastBoost_terminate s t

/-- A call moves the clock, and the boost not away unless it comes now. -/
theorem Clocked.schedCall {s : Scheduler} {n : ℕ} {added : Set ℕ} (h : s.Orderly n added)
    (hm : s.schedMode = .mlfq) {tick : ℤ} (hc : Clocked s tick) {call : SchedCall}
    (htick : ∀ t, call = .tick t → t = tick) (hboost : ∀ t, call ≠ .priorityBoost t) :
    Clocked (schedCall s call) (nextTick tick call) ∧ ∀ t ∈ (schedCall s call).queued,
      t ∈ ((schedCall s call).mlfq 0).toList ∨
        boostDue (schedCall s call) (nextTick tick call) + (if call.isTick then 1 else 0) ≤
          boostDue s tick := by
  cases hcall : call.isTick with
  | true =>
    obtain ⟨t, rfl⟩ : ∃ t, call = .tick t := by
      cases call <;> first | exact ⟨_, rfl⟩ | cases hcall
    rw [htick t rfl]
    exact hc.tick h hm
  | false =>
    have hlast := lastBoost_schedCall s hcall hboost
    have hnext : nextTick tick call = tick := if_neg (by rw [hcall]; decide)
    refine ⟨?_, fun u _ => Or.inr ?_⟩
    · rw [Clocked, hlast, hnext]
      exact hc
    · rw [boostDue, hlast, hnext, ← boostDue]
      simp

/-! ## The rank of a waiting thread -/

/-- A call on other threads takes no thread out of the queues but to run it. -/
theorem queued_schedCall {s : Scheduler} {n t : ℕ} {added : Set ℕ} (h : s.Orderly n added)
    {call : SchedCall} (hcall : CallAllowed s n call) (hboost : ∀ t, call ≠ .priorityBoost t)
    (hspare : Spares t call) (ht : t ∈ s.queued) :
    (schedCall s call).currentThread = some t ∨ t ∈ (schedCall s call).queued := by
  cases call with
  | add u =>
    refine Or.inr ?_
    rw [schedCall, (Scheduler.added h.toSound hcall.1 hcall.2.1).queued]
    exact Multiset.mem_cons_of_mem ht
  | unblock u =>
    have hset := h.unblocked hcall.2.1 hcall.2.2.1
    refine Or.inr ?_
    rw [schedCall, schedulerUnblock, (Scheduler.added hset.toSound hcall.1 hcall.2.1).queued]
    exact Multiset.mem_cons_of_mem ht
  | next => exact Scheduler.queued_next h.toSound ht
  | block u reason =>
    rw [schedCall]
    by_cases hcur : s.currentThread = some u
    · obtain ⟨w, -, -⟩ :=
        Scheduler.withdrawn_blockCurrent h.toSound hcur (h.current_not_queued hcur) reason
      rw [Scheduler.schedulerBlock_current hcur]
      refine Scheduler.queued_next (w.sound h.toSound) ?_
      rw [w.queued]
      exact (Multiset.mem_erase_of_ne hspare).mpr ht
    · refine Or.inr ?_
      rw [(Scheduler.withdrawn_block_queued h.rr_wf h.mlfq_wf hcur reason).2.queued]
      exact (Multiset.mem_erase_of_ne hspare).mpr ht
  | terminate u =>
    refine Or.inr ?_
    rw [schedCall, (Scheduler.withdrawn_schedulerTerminate h.rr_wf h.mlfq_wf u).1.queued]
    exact (Multiset.mem_erase_of_ne hspare).mpr ht
  | tick tick => exact Scheduler.queued_tick h ht tick
  | priorityBoost tick => exact absurd rfl (hboost tick)

/-- The ticks that thread `t` waits at most : in queue `0` its rank there, elsewhere up to the next
boost, and then for a thread with the longest quantum and all the others. -/
def feedbackRank (t : ℕ) (m : Scheduler × ℤ) : ℕ :=
  if t ∈ (m.1.mlfq 0).toList then m.1.frontRank t else (boostDue m.1 m.2).toNat + 72

theorem feedbackRank_pos (t : ℕ) (m : Scheduler × ℤ) : 0 < feedbackRank t m := by
  unfold feedbackRank
  split_ifs
  · exact m.1.frontRank_pos t
  · omega

/-- Thread `t` waits in feedback mode before `calls`, which are allowed and on other threads. -/
structure FeedbackRun (t n : ℕ) (m : Scheduler × ℤ) (calls : List SchedCall) : Prop where
  orderly : m.1.Orderly n ∅
  mode : m.1.schedMode = .mlfq
  quantum : m.1.quantumRemaining ≤ maxQuantum .mlfq
  queued : t ∈ m.1.queued
  clocked : Clocked m.1 m.2
  allowed : AllowedFrom m.1 n calls
  spares : ∀ call ∈ calls, Spares t call
  ticks : TicksFrom m.2 calls

namespace FeedbackRun

variable {t n : ℕ} {m : Scheduler × ℤ} {call : SchedCall} {calls : List SchedCall}

theorem frontRank_le (h : FeedbackRun t n m calls) (ht : t ∈ (m.1.mlfq 0).toList) :
    m.1.frontRank t ≤ 70 := by
  have hidx := List.idxOf_lt_length_of_mem ht
  have hcount := (h.orderly.mlfq_wf 0).count_le
  rw [RingBuffer.length_toList] at hidx
  have hq : m.1.quantumRemaining ≤ 8 := h.quantum
  have hrem : m.1.remaining ≤ 8 := by
    unfold Scheduler.remaining
    split <;> omega
  have htwo : (Scheduler.frontQuantum .mlfq).toNat = 2 := rfl
  have hmax : maxReadyQueue = 32 := rfl
  rw [Scheduler.frontRank, Scheduler.front_mlfq h.mode, h.mode, htwo]
  omega

theorem rank_le (h : FeedbackRun t n m calls) : feedbackRank t m ≤ 104 := by
  have hdue := h.clocked.due
  unfold feedbackRank
  split_ifs with ht
  · exact (h.frontRank_le ht).trans (by decide)
  · omega

/-- The thread runs, or is still queued and its rank does not rise. -/
theorem step (h : FeedbackRun t n m (call :: calls)) :
    (clockCall m call).1.currentThread = some t ∨
      FeedbackRun t n (clockCall m call) calls ∧
        feedbackRank t (clockCall m call) + (if call.isTick then 1 else 0) ≤ feedbackRank t m := by
  obtain ⟨hcall, hallowed⟩ := h.allowed.cons
  obtain ⟨htick, hboost, hticks⟩ := h.ticks.cons
  have hspare := h.spares call List.mem_cons_self
  have hturn := Turn.schedCall h.orderly call
  have hmode : (schedCall m.1 call).schedMode = .mlfq := hturn.mode.trans h.mode
  have hclock := Clocked.schedCall h.orderly h.mode h.clocked htick hboost
  rcases queued_schedCall h.orderly hcall hboost hspare h.queued with hcur | hqueued
  · exact Or.inl hcur
  have hrun : FeedbackRun t n (clockCall m call) calls := by
    refine ⟨(h.orderly.schedCall hcall).subset (Set.empty_subset _), hmode, ?_, hqueued, hclock.1,
      hallowed, fun c hc => h.spares c (List.mem_cons_of_mem call hc), hticks⟩
    exact h.mode ▸ hturn.quantum (h.mode.symm ▸ h.quantum)
  by_cases hfront : t ∈ (m.1.mlfq 0).toList
  · refine (front_schedCall h.orderly hspare (Scheduler.front_mlfq h.mode ▸ hfront)).imp_right
      fun hs => ⟨hrun, ?_⟩
    have hfront' : t ∈ ((clockCall m call).1.mlfq 0).toList :=
      Scheduler.front_mlfq hmode ▸ hs.place.mem
    rw [feedbackRank, feedbackRank, if_pos hfront, if_pos hfront']
    exact hs.rank
  · refine Or.inr ⟨hrun, ?_⟩
    have hdue := hrun.clocked.due
    have hold := h.clocked.due
    rw [feedbackRank, feedbackRank, if_neg hfront]
    split_ifs with hfront' htk htk
    · have := hrun.frontRank_le hfront'
      omega
    · have := hrun.frontRank_le hfront'
      omega
    all_goals
      have hless := (hclock.2 t hqueued).resolve_left hfront'
      rw [clockCall] at hdue ⊢
      simp only [htk, if_true, Bool.false_eq_true, if_false] at hless hdue ⊢
      omega

end FeedbackRun

/-! ## Runs -/

theorem foldl_clockCall_fst (calls : List SchedCall) (m : Scheduler × ℤ) :
    (calls.foldl clockCall m).1 = calls.foldl schedCall m.1 := by
  induction calls generalizing m with
  | nil => rfl
  | cons call calls ih => exact ih (clockCall m call)

/-- The clock after the first calls of a run. -/
theorem clocked_foldl {n : ℕ} {rest : List SchedCall} :
    ∀ (calls : List SchedCall) {m : Scheduler × ℤ}, m.1.Orderly n ∅ → m.1.schedMode = .mlfq →
      Clocked m.1 m.2 → AllowedFrom m.1 n (calls ++ rest) → TicksFrom m.2 (calls ++ rest) →
        Clocked (calls.foldl clockCall m).1 (calls.foldl clockCall m).2 ∧
          TicksFrom (calls.foldl clockCall m).2 rest
  | [], _, _, _, hc, _, ht => ⟨hc, ht⟩
  | call :: calls, m, h, hm, hc, ha, ht => by
    obtain ⟨hcall, hallowed⟩ := ha.cons
    obtain ⟨htick, hboost, hticks⟩ := ht.cons
    exact clocked_foldl calls (m := clockCall m call)
      ((h.schedCall hcall).subset (Set.empty_subset _)) ((Turn.schedCall h call).mode.trans hm)
      (Clocked.schedCall h hm hc htick hboost).1 hallowed hticks

/-- In feedback mode, with consecutive ticks from `0` on, every thread in a queue is the current
thread after at most 104 ticks, whatever happens to the others. -/
theorem feedback_no_starvation {s₀ : Scheduler} {n t : ℕ} (hn : n ≤ maxThreads)
    (hinit : ∀ t < n, (s₀.tcb t).state ≠ .running ∧ (s₀.tcb t).mlfqLevel = -1)
    {calls rest : List SchedCall} (hcalls : RunAllowed s₀ .mlfq n (calls ++ rest))
    (hticks : TicksFrom 0 (calls ++ rest)) (hspare : ∀ call ∈ rest, Spares t call)
    (ht : t ∈ (schedRun s₀ .mlfq calls).queued)
    (hlong : 32 + 8 + 2 * maxThreads ≤ rest.countP SchedCall.isTick) :
    ∃ pre, pre <+: rest ∧ (schedRun s₀ .mlfq (calls ++ pre)).currentThread = some t := by
  have hbefore := hcalls.of_prefix (List.prefix_append calls rest)
  have hord₀ := Scheduler.orderly_schedulerInit s₀ .mlfq hn hinit
  set m := calls.foldl clockCall (schedulerInit s₀ .mlfq, 0) with hm
  have hfst : m.1 = schedRun s₀ .mlfq calls := foldl_clockCall_fst calls _
  obtain ⟨hclock, hrest⟩ := clocked_foldl calls (m := (schedulerInit s₀ .mlfq, 0)) hord₀ rfl
    (Or.inl ⟨rfl, le_rfl, zero_le_one⟩) hcalls hticks
  have h : FeedbackRun t n m rest := by
    refine ⟨?_, ?_, ?_, ?_, hclock, ?_, hspare, hrest⟩
    all_goals rw [hfst]
    · exact (orderly_schedRun hn hinit hbefore).subset (Set.empty_subset _)
    · exact mode_schedRun hn hinit hbefore
    · exact quantum_schedRun hn hinit hbefore
    · exact ht
    · exact hcalls.from
  obtain ⟨pre, hpre, hdone⟩ := Ranking.reaches (FeedbackRun t n)
    (fun m => m.1.currentThread = some t) (feedbackRank t)
    (fun m _ _ => feedbackRank_pos t m) (fun m call calls hinv => hinv.step) h
    (h.rank_le.trans hlong)
  refine ⟨pre, hpre, ?_⟩
  rw [schedRun_foldl, ← hfst, ← foldl_clockCall_fst]
  exact hdone

/-- The ticks `0`, …, `k - 1` and nothing else. -/
def firstTicks (k : ℕ) : List ℤ := (List.range k).map fun i : ℕ => (i : ℤ)

theorem ticksFrom_range (k : ℕ) : ∀ start : ℕ,
    TicksFrom start (((List.range' start k).map fun i : ℕ => (i : ℤ)).map .tick) := by
  induction k with
  | zero => exact fun _ => trivial
  | succ k ih =>
    intro start
    rw [List.range'_succ, List.map_cons, List.map_cons]
    exact ⟨rfl, ih (start + 1)⟩

theorem ticksFrom_firstTicks (k : ℕ) : TicksFrom 0 ((firstTicks k).map .tick) := by
  rw [firstTicks, List.range_eq_range']
  exact ticksFrom_range k 0

/-- Thread 1 waits behind thread 0. -/
theorem feedback_no_starvation_second :
    let calls : List SchedCall := [.add 0, .add 1, .next]
    1 ∈ (schedRun freshScheduler .mlfq calls).queued ∧
      ∃ pre, pre <+: (firstTicks 104).map .tick ∧
        (schedRun freshScheduler .mlfq (calls ++ pre)).currentThread = some 1 := by
  intro calls
  have h₀ : RunAllowed freshScheduler .mlfq 2 [] := fun pre call hpre =>
    absurd (List.prefix_nil.mp hpre) (List.append_ne_nil_of_right_ne_nil pre (by simp))
  have hcalls : RunAllowed freshScheduler .mlfq 2 (calls ++ (firstTicks 104).map .tick) :=
    (((h₀.append (.add 0) (by decide)).append (.add 1) (by decide)).append .next trivial).ticks _
  have hqueued : 1 ∈ (schedRun freshScheduler .mlfq calls).queued := by decide
  have hspare : ∀ call ∈ (firstTicks 104).map SchedCall.tick, Spares 1 call := by
    intro call hcall
    obtain ⟨tick, -, rfl⟩ := List.mem_map.mp hcall
    trivial
  exact ⟨hqueued, feedback_no_starvation (by decide) (fun _ _ => ⟨ThreadState.noConfusion, rfl⟩)
    hcalls (ticksFrom_firstTicks 104) hspare hqueued (by decide +kernel)⟩

end FleetOS
