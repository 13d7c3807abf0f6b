import FleetOS.BlockedThreads

/-!
# I/O events

An I/O write registers an event that is due three ticks later, and its thread is blocked until
then. An event of a process wakes all its threads that are blocked for I/O, an id of the buffer
can wake a thread that is blocked for I/O, and a registration can bring back events from the
slots before its own. Where none of this happens (`IoUndisturbed`), an event stays in the array
once, until it is completed at its tick or its process ends (`count_machineStep`), and its thread
stays blocked (`io_blocked_machineStep`). Hence it is completed exactly once
(`io_event_completed_once`).

All I/O events of the array are due within three ticks (`IoWindow`), so the events of different
ticks differ.
-/

namespace FleetOS

/-- How many slots with event `e` this part of a tick completes. -/
def completions (m : Kernel × Phase) (e : PendingEvent) : ℕ :=
  if m.2 = .ioEvents then
    (List.range m.1.pendingCount).countP fun i => m.1.due .ioBlock i ∧ m.1.pending i = e
  else 0

/-- Event `e` is completed in time, or its process ends. -/
def Settles (m : Kernel × Phase) (e : PendingEvent) : Prop :=
  (m.2 = .ioEvents ∧ m.1.currentTick = e.completionTick) ∨
    ∃ p, endingAt m = some p ∧ (m.1.procs p).pid = e.pid

/-- Between the parts `i` and `j` event `e` is not settled. -/
def Outstanding (run : ℕ → Kernel × Phase) (i j : ℕ) (e : PendingEvent) : Prop :=
  ∀ l, i < l → l < j → ¬Settles (run l) e

/-- No I/O event comes back, a due I/O event is not completed while its process has another one
that is not due, and no id of the buffer wakes a thread that is blocked for I/O. -/
structure IoUndisturbed (m : Kernel × Phase) : Prop where
  stale : ∀ t slot, ioWritingAt m = some t → freeSlot m.1 = some slot →
    ∀ e ∈ staleEvents m.1 slot, e.reason ≠ .ioBlock
  alone : m.2 = .ioEvents → ∀ e ∈ m.1.events, ∀ e' ∈ m.1.events, e.reason = .ioBlock →
    e'.reason = .ioBlock → e.pid = e'.pid → e.dueAt m.1.currentTick .ioBlock →
      e'.dueAt m.1.currentTick .ioBlock
  taken : ∀ t ∈ resolvedBy m.1 (takenIds m), (m.1.tcb t).waitReason ≠ .ioBlock

theorem PendingEvent.dueAt_iff {e : PendingEvent} {tick : ℤ} {reason : BlockReason} :
    e.dueAt tick reason = true ↔ e.reason = reason ∧ e.completionTick ≤ tick := by
  rw [PendingEvent.dueAt, decide_eq_true_eq]

/-- The slots that are completed are those of the event in `events`, if it is due. -/
theorem completions_eq (m : Kernel × Phase) (e : PendingEvent) :
    completions m e =
      if m.2 = .ioEvents ∧ e.dueAt m.1.currentTick .ioBlock then m.1.events.count e else 0 := by
  unfold completions
  by_cases hp : m.2 = .ioEvents
  · rw [if_pos hp]
    by_cases hd : e.dueAt m.1.currentTick .ioBlock = true
    · rw [if_pos ⟨hp, hd⟩, Kernel.events, List.count, List.countP_filter, List.countP_map]
      refine List.countP_congr fun i _ => ?_
      obtain ⟨hr, ht⟩ := PendingEvent.dueAt_iff.mp hd
      simp only [Kernel.due, decide_eq_true_eq, Function.comp_apply, Bool.and_eq_true, beq_iff_eq]
      constructor
      · rintro ⟨⟨ha, -, -⟩, he⟩
        exact ⟨he, ha⟩
      · rintro ⟨he, ha⟩
        exact ⟨⟨ha, he ▸ hr, he ▸ ht⟩, he⟩
    · rw [if_neg fun h => hd h.2, List.countP_eq_zero]
      intro i _ hi
      simp only [Kernel.due, decide_eq_true_eq] at hi
      obtain ⟨⟨-, hr, ht⟩, rfl⟩ := hi
      exact hd (PendingEvent.dueAt_iff.mpr ⟨hr, ht⟩)
  · rw [if_neg hp, if_neg fun h => hp h.1]

/-! ## The ticks of the events -/

/-- The first tick, seen from the current one, for which there can be events. -/
def Phase.tickLow : Phase → ℤ
  | .top | .arrivals | .ioEvents | .halted => 0
  | _ => 1

/-- The last one. -/
def Phase.tickHigh : Phase → ℤ
  | .top | .arrivals | .ioEvents | .pageFaults | .compact | .dispatch | .execute => 2
  | _ => 3

/-- The I/O events are due within three ticks. -/
def IoWindow (m : Kernel × Phase) : Prop :=
  ∀ e ∈ m.1.events, e.reason = .ioBlock →
    m.1.currentTick + m.2.tickLow ≤ e.completionTick ∧
      e.completionTick ≤ m.1.currentTick + m.2.tickHigh

variable {m : Kernel × Phase}

/-- The time goes on. -/
theorem tickHigh_machineStep (h : MachineTables m) :
    m.1.currentTick + m.2.tickHigh ≤
      (machineStep m).1.currentTick + (machineStep m).2.tickHigh := by
  by_cases hp : m.2 = .finish
  · obtain ⟨k, ph⟩ := m
    obtain rfl : ph = .finish := hp
    simp only [machineStep]
    split_ifs <;> simp only [Phase.tickHigh] <;> omega
  · rw [(tableStep h).currentTick hp]
    obtain ⟨k, ph⟩ := m
    cases ph with
    | finish => exact absurd rfl hp
    | top =>
      simp only [machineStep]
      split_ifs <;> simp [Phase.tickHigh]
    | execute =>
      simp only [machineStep]
      split <;> simp [Phase.tickHigh]
    | _ => simp [machineStep, Phase.tickHigh]

theorem tickLow_machineStep (h : MachineTables m) :
    (machineStep m).1.currentTick + (machineStep m).2.tickLow ≤
      m.1.currentTick + if m.2 = .ioEvents then 1 else m.2.tickLow := by
  by_cases hp : m.2 = .finish
  · obtain ⟨k, ph⟩ := m
    obtain rfl : ph = .finish := hp
    simp only [machineStep]
    split_ifs <;> simp only [Phase.tickLow] <;> omega
  · rw [(tableStep h).currentTick hp]
    obtain ⟨k, ph⟩ := m
    cases ph with
    | finish => exact absurd rfl hp
    | top =>
      simp only [machineStep]
      split_ifs <;> simp [Phase.tickLow]
    | execute =>
      simp only [machineStep]
      split <;> simp [Phase.tickLow]
    | _ => simp [machineStep, Phase.tickLow]

theorem execute_of_ioWritingAt {t : ℕ} (h : ioWritingAt m = some t) :
    m.2 = .execute ∧ m.1.runningThread = some t ∧
      threadCurrentCommand (m.1.tcb t) = .ioWrite := by
  obtain ⟨k, ph⟩ := m
  cases ph with
  | execute =>
    obtain ⟨hrun, hcmd⟩ := Option.filter_eq_some_iff.mp h
    exact ⟨rfl, hrun, by simpa using hcmd⟩
  | _ => cases h

theorem pageFault_of_faultingAt {t : ℕ} (h : faultingAt m = some t) : m.2 = .pageFault := by
  obtain ⟨k, ph⟩ := m
  cases ph with
  | pageFault => rfl
  | _ => cases h

/-- No process ends in a busy part. -/
theorem endingAt_of_busy (h : m.2.busy = true) : endingAt m = none := by
  obtain ⟨k, ph⟩ := m
  cases ph <;> first | rfl | cases h

/-- After a command the events of this tick are the last that are possible. -/
theorem window_execute (h : MachineTables m) (hp : m.2 = .execute) {t : ℕ}
    (hrun : m.1.runningThread = some t) :
    (machineStep m).1.currentTick = m.1.currentTick ∧ (machineStep m).2.tickLow = 1 ∧
      (machineStep m).2.tickHigh = 3 := by
  refine ⟨(tableStep h).currentTick (by simp [hp]), ?_⟩
  obtain ⟨k, ph⟩ := m
  obtain rfl : ph = .execute := hp
  have hrun : k.runningThread = some t := hrun
  simp only [machineStep, hrun]
  exact ⟨rfl, rfl⟩

theorem ioWindow_machineStep (h : MachineTables m) (hw : IoWindow m) (hc : IoUndisturbed m) :
    IoWindow (machineStep m) := by
  have hhigh := tickHigh_machineStep h
  have hlow := tickLow_machineStep h
  -- an event that was there before keeps its bounds, if it is not due
  have hkeep : ∀ e ∈ m.1.events, e.reason = .ioBlock →
      (m.2 = .ioEvents → m.1.currentTick < e.completionTick) →
      (machineStep m).1.currentTick + (machineStep m).2.tickLow ≤ e.completionTick ∧
        e.completionTick ≤ (machineStep m).1.currentTick + (machineStep m).2.tickHigh := by
    intro e he hr hdue
    obtain ⟨hl, hh⟩ := hw e he hr
    refine ⟨hlow.trans ?_, hh.trans hhigh⟩
    split_ifs with hp
    · have := hdue hp
      omega
    · exact hl
  intro e he hr
  cases events_machineStep h with
  | same _ hp _ _ hl => exact hkeep e (hl ▸ he) hr fun hp' => absurd hp' hp
  | ended p hend hl =>
    rw [hl] at he
    refine hkeep e (List.mem_filter.mp he).1 hr fun hp => ?_
    rw [endingAt_of_busy (by rw [hp]; rfl)] at hend
    cases hend
  | completed reason hp hl =>
    rw [hl] at he
    obtain ⟨he, hdue⟩ := List.mem_filter.mp he
    refine hkeep e he hr fun hio => ?_
    rcases hp with ⟨-, rfl⟩ | ⟨hp, -⟩
    · by_contra hle
      rw [PendingEvent.dueAt_iff.mpr ⟨hr, not_lt.mp hle⟩] at hdue
      cases hdue
    · rw [hio] at hp
      cases hp
  | faulted t slot page hf hs hl =>
    rcases List.mem_cons.mp (hl.mem_iff.mp he) with rfl | he
    · cases hr
    · refine hkeep e he hr fun hp => ?_
      rw [pageFault_of_faultingAt hf] at hp
      cases hp
  | registered t slot hwrite hs hl =>
    obtain ⟨hp, hrun, -⟩ := execute_of_ioWritingAt hwrite
    rcases List.mem_cons.mp (hl.mem_iff.mp he) with rfl | he
    · obtain ⟨ht, hl, hh⟩ := window_execute h hp hrun
      rw [ht, hl, hh]
      exact ⟨by simp [ioEvent, ioDuration], le_rfl⟩
    · rcases List.mem_append.mp he with he | he
      · refine hkeep e he hr fun hp' => ?_
        rw [hp] at hp'
        cases hp'
      · exact absurd hr (hc.stale t slot hwrite hs e he)

/-! ## One event -/

variable {e : PendingEvent}

/-- An I/O event stays in the array as often as before, until it is settled. -/
theorem count_machineStep (h : MachineTables m) (hw : IoWindow m) (hc : IoUndisturbed m)
    (hr : e.reason = .ioBlock) (hhigh : e.completionTick ≤ m.1.currentTick + m.2.tickHigh) :
    (Settles m e → (machineStep m).1.events.count e = 0) ∧
      (¬Settles m e → (machineStep m).1.events.count e = m.1.events.count e) := by
  have hidle : endingAt m = none → m.2 ≠ .ioEvents → ¬Settles m e := by
    rintro hend hp (⟨hp', -⟩ | ⟨p, hp', -⟩)
    · exact hp hp'
    · rw [hend] at hp'
      cases hp'
  have hbusy : m.2.busy = true → m.2 ≠ .ioEvents → ¬Settles m e :=
    fun hb => hidle (endingAt_of_busy hb)
  have hsame : ¬Settles m e → (machineStep m).1.events.count e = m.1.events.count e →
      (Settles m e → (machineStep m).1.events.count e = 0) ∧
        (¬Settles m e → (machineStep m).1.events.count e = m.1.events.count e) :=
    fun hns heq => ⟨fun hs => absurd hs hns, fun _ => heq⟩
  cases events_machineStep h with
  | same hend hp _ _ hl => exact hsame (hidle hend hp) (by rw [hl])
  | ended p hend hl =>
    rw [hl]
    refine ⟨fun hs => ?_, fun hns => List.count_filter ?_⟩
    · rcases hs with ⟨hp, -⟩ | ⟨q, hq, hpid⟩
      · rw [endingAt_of_busy (by rw [hp]; rfl)] at hend
        cases hend
      · obtain rfl : q = p := Option.some.inj (hq.symm.trans hend)
        refine List.count_eq_zero.mpr fun he => ?_
        have hne := (List.mem_filter.mp he).2
        rw [decide_eq_true_eq] at hne
        exact hne hpid.symm
    · rw [decide_eq_true_eq]
      exact fun hpid => hns (Or.inr ⟨p, hend, hpid.symm⟩)
  | completed reason hp hl =>
    rcases hp with ⟨hp, rfl⟩ | ⟨hp, rfl⟩
    · rw [hl]
      by_cases hdue : e.dueAt m.1.currentTick .ioBlock = true
      · have hzero : (m.1.events.filter fun e => !e.dueAt m.1.currentTick .ioBlock).count e = 0 := by
          refine List.count_eq_zero.mpr fun he => ?_
          have hnot := (List.mem_filter.mp he).2
          rw [hdue] at hnot
          cases hnot
        refine ⟨fun _ => hzero, fun hns => hzero.trans (List.count_eq_zero.mpr fun he => ?_).symm⟩
        -- an event that is due and in the array is due now
        have hl := (hw e he hr).1
        have hle := (PendingEvent.dueAt_iff.mp hdue).2
        rw [hp] at hl
        simp only [Phase.tickLow] at hl
        exact hns (Or.inl ⟨hp, by omega⟩)
      · refine ⟨fun hs => ?_, fun _ => List.count_filter (by simpa using hdue)⟩
        rcases hs with ⟨-, ht⟩ | ⟨p, hend, -⟩
        · exact absurd (PendingEvent.dueAt_iff.mpr ⟨hr, ht.ge⟩) hdue
        · rw [endingAt_of_busy (by rw [hp]; rfl)] at hend
          cases hend
    · refine hsame (hbusy (by rw [hp]; rfl) (by simp [hp])) ?_
      rw [hl]
      refine List.count_filter ?_
      rw [PendingEvent.dueAt, hr]
      rfl
  | faulted t slot page hf hs hl =>
    have hp := pageFault_of_faultingAt hf
    refine hsame (hbusy (by rw [hp]; rfl) (by simp [hp])) ?_
    rw [hl.count_eq, List.count_cons_of_ne]
    rintro rfl
    cases hr
  | registered t slot hwrite hs hl =>
    obtain ⟨hp, hrun, -⟩ := execute_of_ioWritingAt hwrite
    have hstale : (staleEvents m.1 slot).count e = 0 :=
      List.count_eq_zero.mpr fun he => hc.stale t slot hwrite hs e he hr
    refine hsame (hbusy (by rw [hp]; rfl) (by simp [hp])) ?_
    rw [hl.count_eq, List.count_cons_of_ne, List.count_append, hstale, Nat.add_zero]
    rintro rfl
    rw [hp] at hhigh
    simp only [ioEvent, ioDuration, Phase.tickHigh] at hhigh
    omega

/-- A thread that is blocked for I/O stays so, as long as an event of its process that is not due
yet is not settled. -/
theorem io_blocked_machineStep (h : MachineTables m) (hw : IoWindow m) (hc : IoUndisturbed m)
    (hr : e.reason = .ioBlock) (he : e ∈ m.1.events) (hns : ¬Settles m e) {t : ℕ}
    (ho : (m.1.tcb t).ownerPid = e.pid) (hb : (m.1.tcb t).state = .blocked)
    (hio : (m.1.tcb t).waitReason = .ioBlock) : (machineStep m).1.tcb t = m.1.tcb t := by
  rcases blocked_machineStep h hb with hs | ⟨hwoken, -⟩ | ⟨p, hp, hpid⟩
  · exact hs
  · cases hwoken with
    | taken ht => exact absurd hio (hc.taken t ht)
    | due reason hp i hi ha =>
      obtain rfl : reason = .ioBlock := ha.reason.symm.trans hio
      obtain ⟨he', hd⟩ := ha.event hi
      rcases hp with ⟨hp, -⟩ | ⟨-, hp⟩
      · -- the event that wakes the thread is due, so `e` is due as well
        have hr' := (PendingEvent.dueAt_iff.mp hd).1
        have hdue := hc.alone hp _ he' e he hr' hr (ha.owner.symm.trans ho) hd
        have hle := (PendingEvent.dueAt_iff.mp hdue).2
        have hl := (hw e he hr).1
        rw [hp] at hl
        simp only [Phase.tickLow] at hl
        exact absurd (Or.inl ⟨hp, by omega⟩) hns
      · cases hp
    | served _ _ hr' =>
      rw [hio] at hr'
      cases hr'
  · exact absurd (Or.inr ⟨p, hp, hpid.symm.trans ho⟩) hns

/-- When the event is due its thread is woken. -/
theorem io_woken_machineStep (h : MachineTables m) (hp : m.2 = .ioEvents) (he : e ∈ m.1.events)
    (hdue : e.dueAt m.1.currentTick .ioBlock) {t : ℕ} (ht : t < m.1.threadCount)
    (ho : (m.1.tcb t).ownerPid = e.pid) (hb : (m.1.tcb t).state = .blocked)
    (hio : (m.1.tcb t).waitReason = .ioBlock) : ((machineStep m).1.tcb t).state = .ready :=
  due_woken_machineStep h (Or.inl ⟨hp, rfl⟩) he hdue ht ho.symm hb hio

/-- A new event is in the array once, and its thread is blocked. -/
theorem registered_machineStep (h : MachineTables m) (hw : IoWindow m) (hc : IoUndisturbed m)
    {t slot : ℕ} (hwrite : ioWritingAt m = some t) (hs : freeSlot m.1 = some slot)
    (he : e = ioEvent m.1 slot (m.1.tcb t).ownerPid (logPath (m.1.tcb t).ownerPid m.1.ioSeq)) :
    (machineStep m).1.events.count e = 1 ∧ ((machineStep m).1.tcb t).state = .blocked ∧
      ((machineStep m).1.tcb t).waitReason = .ioBlock ∧
      e.completionTick ≤ (machineStep m).1.currentTick + (machineStep m).2.tickHigh := by
  obtain ⟨hp, hrun, hcmd⟩ := execute_of_ioWritingAt hwrite
  have hr : e.reason = .ioBlock := by rw [he]; rfl
  have htick : e.completionTick = m.1.currentTick + 3 := by rw [he]; rfl
  refine ⟨?_, ?_⟩
  · have hold : m.1.events.count e = 0 := by
      refine List.count_eq_zero.mpr fun hmem => ?_
      have hh := (hw e hmem hr).2
      rw [hp, htick] at hh
      simp only [Phase.tickHigh] at hh
      omega
    have hstale : (staleEvents m.1 slot).count e = 0 :=
      List.count_eq_zero.mpr fun hmem => hc.stale t slot hwrite hs e hmem hr
    cases events_machineStep h with
    | same _ _ _ hnone _ =>
      rw [hwrite, hs] at hnone
      rcases hnone with hnone | hnone <;> cases hnone
    | ended p hend _ =>
      rw [endingAt_of_busy (by rw [hp]; rfl)] at hend
      cases hend
    | completed reason hp' _ => rcases hp' with ⟨hp', -⟩ | ⟨hp', -⟩ <;> rw [hp] at hp' <;> cases hp'
    | faulted u slot' page hf _ _ =>
      rw [pageFault_of_faultingAt hf] at hp
      cases hp
    | registered u slot' hwrite' hs' hl =>
      obtain rfl : t = u := Option.some.inj (hwrite.symm.trans hwrite')
      obtain rfl : slot = slot' := Option.some.inj (hs.symm.trans hs')
      rw [hl.count_eq, ← he, List.count_cons_self, List.count_append, hold, hstale]
  · obtain ⟨ht, -, hh⟩ := window_execute h hp hrun
    rw [ht, hh, htick]
    obtain ⟨k, ph⟩ := m
    obtain rfl : ph = .execute := hp
    have hrun : k.runningThread = some t := hrun
    have hcmd : threadCurrentCommand (k.tcb t) = .ioWrite := hcmd
    have hx : (machineStep (k, .execute)).1 = executeIoWrite k t := by
      simp only [machineStep, hrun, executeCommand, hcmd]
    have hb : Blocked k (executeIoWrite k t) t .ioBlock := blocked_registerIo h.tables hrun ⟨rfl⟩ _ _
    rw [hx]
    exact ⟨hb.blocked, hb.waitReason, le_rfl⟩

/-! ## Progress -/

/-- How many parts are left until the end of the tick. -/
def Phase.remaining : Phase → ℕ
  | .top => 15
  | .arrivals => 14
  | .ioEvents => 13
  | .pageFaults => 12
  | .compact => 11
  | .dispatch => 10
  | .execute => 9
  | .retire _ => 8
  | .detect => 7
  | .crash => 6
  | .pageFault => 5
  | .schedTick => 4
  | .waitTime => 3
  | .snapshot => 2
  | .wakeWaiters => 1
  | .finish | .halted => 0

theorem remaining_machineStep (h : m.2 ≠ .finish) :
    (machineStep m).2 = .halted ∨ (machineStep m).2.remaining < m.2.remaining := by
  obtain ⟨k, ph⟩ := m
  cases ph with
  | finish => exact absurd rfl h
  | top =>
    simp only [machineStep]
    split_ifs
    · exact Or.inl rfl
    · exact Or.inr (by simp [Phase.remaining])
  | execute =>
    simp only [machineStep]
    split <;> exact Or.inr (by simp [Phase.remaining])
  | halted => exact Or.inl rfl
  | _ => exact Or.inr (by simp [machineStep, Phase.remaining])

theorem finish_machineStep (h : m.2 = .finish) :
    (machineStep m).2 = .halted ∨ (machineStep m).2 = .top ∧
      (machineStep m).1.currentTick = m.1.currentTick + 1 := by
  obtain ⟨k, ph⟩ := m
  obtain rfl : ph = .finish := h
  simp only [machineStep]
  split_ifs
  · exact Or.inl rfl
  · exact Or.inr ⟨rfl, rfl⟩

theorem top_machineStep (h : m.2 = .top) :
    (machineStep m).2 = .halted ∨ (machineStep m).2 = .arrivals := by
  obtain ⟨k, ph⟩ := m
  obtain rfl : ph = .top := h
  simp only [machineStep]
  split_ifs
  · exact Or.inl rfl
  · exact Or.inr rfl

theorem arrivals_machineStep (h : m.2 = .arrivals) : (machineStep m).2 = .ioEvents := by
  obtain ⟨k, ph⟩ := m
  obtain rfl : ph = .arrivals := h
  rfl

/-- From any part the loop comes to its next tick, or it ends. -/
theorem reaches_top {k : Kernel} (h : ∀ n, MachineTables (machineRun k n)) (i : ℕ) :
    ∃ j > i, (machineRun k j).2 = .halted ∨ (machineRun k j).2 = .top ∧
      (machineRun k j).1.currentTick = (machineRun k i).1.currentTick + 1 := by
  induction hr : (machineRun k i).2.remaining using Nat.strong_induction_on generalizing i with
  | _ r ih =>
    by_cases hp : (machineRun k i).2 = .finish
    · exact ⟨i + 1, i.lt_succ_self, by rw [machineRun_succ]; exact finish_machineStep hp⟩
    · have htick := (tableStep (h i)).currentTick hp
      rw [← machineRun_succ] at htick
      rcases remaining_machineStep hp with hhalt | hlt
      · exact ⟨i + 1, i.lt_succ_self, Or.inl (by rw [machineRun_succ]; exact hhalt)⟩
      · rw [← machineRun_succ, hr] at hlt
        obtain ⟨j, hj, hend⟩ := ih _ hlt (i + 1) rfl
        rw [htick] at hend
        exact ⟨j, by omega, hend⟩

/-- It comes to the I/O events of every later tick, or it ends. -/
theorem reaches_ioEvents {k : Kernel} (h : ∀ n, MachineTables (machineRun k n)) (d i : ℕ) :
    ∃ j > i, (machineRun k j).2 = .halted ∨ (machineRun k j).2 = .ioEvents ∧
      (machineRun k j).1.currentTick = (machineRun k i).1.currentTick + (d + 1) := by
  induction d generalizing i with
  | zero =>
    obtain ⟨j, hj, hend | ⟨hp, ht⟩⟩ := reaches_top h i
    · exact ⟨j, hj, Or.inl hend⟩
    have h₁ := (tableStep (h j)).currentTick (by simp [hp])
    have harr := top_machineStep hp
    rw [← machineRun_succ] at h₁ harr
    rcases harr with hhalt | hp₁
    · exact ⟨j + 1, by omega, Or.inl hhalt⟩
    have h₂ := (tableStep (h (j + 1))).currentTick (by simp [hp₁])
    have hio := arrivals_machineStep hp₁
    rw [← machineRun_succ] at h₂ hio
    refine ⟨j + 2, by omega, Or.inr ⟨hio, ?_⟩⟩
    rw [h₂, h₁, ht]
    simp
  | succ d ih =>
    obtain ⟨j, hj, hend | ⟨-, ht⟩⟩ := reaches_top h i
    · exact ⟨j, hj, Or.inl hend⟩
    obtain ⟨l, hl, hend | ⟨hp, ht'⟩⟩ := ih j
    · exact ⟨l, by omega, Or.inl hend⟩
    refine ⟨l, by omega, Or.inr ⟨hp, ?_⟩⟩
    rw [ht', ht]
    push_cast
    ring

/-! ## Runs -/

/-- What is true in every state of an undisturbed run. -/
theorem ioWindow_machineRun {k₀ : Kernel} {cfg : KernelConfig} {w : List ProcessSpec}
    (hw : ValidWorkload w) {n : ℕ}
    (hc : ∀ m < n, IoUndisturbed (machineRun (kernelInit k₀ cfg w) m)) :
    IoWindow (machineRun (kernelInit k₀ cfg w) n) := by
  have hstep : ∀ m, MachineTables m ∧ IoWindow m → IoUndisturbed m →
      MachineTables (machineStep m) ∧ IoWindow (machineStep m) :=
    fun m h hc => ⟨tables_machineStep h.1, ioWindow_machineStep h.1 h.2 hc⟩
  have hzero : (kernelInit k₀ cfg w).pendingCount = 0 := by
    obtain ⟨k₁, hl, -, -, hcount, -, -⟩ := loaded_kernelInit k₀ cfg w
    rw [hl]
    exact hcount
  have hinit : IoWindow (kernelInit k₀ cfg w, .top) := by
    intro e he
    obtain ⟨i, hi, -⟩ := mem_events.mp he
    have hi : i < (kernelInit k₀ cfg w).pendingCount := hi
    omega
  exact (Machine.invariant hstep hc
    ⟨⟨tables_kernelInit k₀ cfg hw, fun t ht => by cases ht⟩, hinit⟩ :
      MachineTables (machineRun (kernelInit k₀ cfg w) n) ∧ _).2

/-- From its registration on, an event is in the array once and its thread is blocked, until it is
settled. -/
theorem outstanding_machineRun {run : ℕ → Kernel × Phase} (hsucc : ∀ n, run (n + 1) = machineStep (run n))
    (htab : ∀ n, MachineTables (run n)) {n : ℕ} (hwin : ∀ m ≤ n, IoWindow (run m))
    (hc : ∀ m < n, IoUndisturbed (run m)) {i t slot : ℕ} (hwrite : ioWritingAt (run i) = some t)
    (hs : freeSlot (run i).1 = some slot) {e : PendingEvent}
    (he : e = ioEvent (run i).1 slot ((run i).1.tcb t).ownerPid
      (logPath ((run i).1.tcb t).ownerPid (run i).1.ioSeq)) {j : ℕ} (hij : i < j) (hjn : j ≤ n) :
    e.completionTick ≤ (run j).1.currentTick + (run j).2.tickHigh ∧
      t < (run j).1.threadCount ∧
      (Outstanding run i j e → (run j).1.events.count e = 1 ∧
        ((run j).1.tcb t).ownerPid = e.pid ∧ ((run j).1.tcb t).state = .blocked ∧
        ((run j).1.tcb t).waitReason = .ioBlock) ∧
      (¬Outstanding run i j e → (run j).1.events.count e = 0) := by
  have hr : e.reason = .ioBlock := by rw [he]; rfl
  have hpid : e.pid = ((run i).1.tcb t).ownerPid := by rw [he]; rfl
  have howner : ∀ l, ((run (l + 1)).1.tcb t).ownerPid = ((run l).1.tcb t).ownerPid := by
    intro l
    rw [hsucc]
    exact congrArg (fun i => i.2.1) ((tableStep (htab l)).ident t)
  have hn : ∀ l, (run (l + 1)).1.threadCount = (run l).1.threadCount := by
    intro l
    rw [hsucc]
    exact (tableStep (htab l)).threadCount
  induction j, hij using Nat.le_induction with
  | base =>
    have ht := (htab i).tables.running_lt (execute_of_ioWritingAt hwrite).2.1
    obtain ⟨hcount, hb, hreason, hhigh⟩ :=
      registered_machineStep (htab i) (hwin i (by omega)) (hc i (by omega)) hwrite hs he
    rw [← hsucc] at hcount hb hreason hhigh
    exact ⟨hhigh, (hn i).symm ▸ ht, fun _ => ⟨hcount, (howner i).trans hpid.symm, hb, hreason⟩,
      fun hout => absurd (fun l hl hl' => by omega) hout⟩
  | succ j hij ih =>
    obtain ⟨hhigh, ht, hout, hsettled⟩ := ih (by omega)
    have hw := hwin j (by omega)
    have hcj := hc j (by omega)
    obtain ⟨hzero, hkeep⟩ := count_machineStep (htab j) hw hcj hr hhigh
    have htick := tickHigh_machineStep (htab j)
    rw [← hsucc] at hzero hkeep htick
    refine ⟨hhigh.trans htick, (hn j).symm ▸ ht, fun ho => ?_, fun ho => ?_⟩
    · have hns : ¬Settles (run j) e := ho j hij j.lt_succ_self
      obtain ⟨hcount, hpid', hb, hreason⟩ := hout fun l hl hl' => ho l hl (by omega)
      have hmem : e ∈ (run j).1.events := List.count_pos_iff.mp (by omega)
      have hsame := io_blocked_machineStep (htab j) hw hcj hr hmem hns hpid' hb hreason
      rw [← hsucc] at hsame
      exact ⟨(hkeep hns).trans hcount, (howner j).trans hpid', hsame ▸ hb, hsame ▸ hreason⟩
    · by_cases hns : Settles (run j) e
      · exact hzero hns
      · refine (hkeep hns).trans (hsettled fun hout => ho fun l hl hl' => ?_)
        rcases Nat.lt_succ_iff_lt_or_eq.mp hl' with hl' | rfl
        · exact hout l hl hl'
        · exact hns

/-- An event that is registered is completed exactly once, at its tick, unless its process ends
before. Its thread is blocked until then and ready afterwards. The loop comes to that tick unless
it ends. -/
theorem io_event_completed_once (k₀ : Kernel) (cfg : KernelConfig) {w : List ProcessSpec}
    (hw : ValidWorkload w) {run : ℕ → Kernel × Phase} (hrun : run = machineRun (kernelInit k₀ cfg w))
    {n : ℕ} (hc : ∀ m < n, IoUndisturbed (run m)) {i t slot : ℕ}
    (hwrite : ioWritingAt (run i) = some t) (hs : freeSlot (run i).1 = some slot) {e : PendingEvent}
    (he : e = ioEvent (run i).1 slot ((run i).1.tcb t).ownerPid
      (logPath ((run i).1.tcb t).ownerPid (run i).1.ioSeq)) :
    (∀ j, i < j → j ≤ n →
      completions (run j) e ≤ 1 ∧
      (completions (run j) e = 1 ↔ (run j).2 = .ioEvents ∧
        (run j).1.currentTick = e.completionTick ∧ Outstanding run i j e) ∧
      (Outstanding run i j e → ((run j).1.tcb t).state = .blocked ∧
        ((run j).1.tcb t).waitReason = .ioBlock) ∧
      (completions (run j) e = 1 → ((run (j + 1)).1.tcb t).state = .ready)) ∧
    ∃ j > i, (run j).2 = .halted ∨ (run j).2 = .ioEvents ∧
      (run j).1.currentTick = e.completionTick := by
  subst hrun
  have htab : ∀ n, MachineTables (machineRun (kernelInit k₀ cfg w) n) := tables_machineRun k₀ cfg hw
  have hwin : ∀ m ≤ n, IoWindow (machineRun (kernelInit k₀ cfg w) m) :=
    fun m hm => ioWindow_machineRun hw fun l hl => hc l (hl.trans_le hm)
  have hr : e.reason = .ioBlock := by rw [he]; rfl
  refine ⟨fun j hij hjn => ?_, ?_⟩
  · obtain ⟨-, ht, hout, hsettled⟩ := outstanding_machineRun (machineRun_succ _) htab hwin hc hwrite
      hs he hij hjn
    rw [completions_eq, machineRun_succ]
    by_cases ho : Outstanding (machineRun (kernelInit k₀ cfg w)) i j e
    · obtain ⟨hcount, hpid, hb, hreason⟩ := hout ho
      rw [hcount]
      have hmem : e ∈ (machineRun (kernelInit k₀ cfg w) j).1.events :=
        List.count_pos_iff.mp (by omega)
      have hlow := (hwin j hjn e hmem hr).1
      split_ifs with hdue
      · refine ⟨le_rfl, iff_of_true rfl ⟨hdue.1, ?_, ho⟩, fun _ => ⟨hb, hreason⟩, fun _ =>
          io_woken_machineStep (htab j) hdue.1 hmem hdue.2 ht hpid hb hreason⟩
        have hle := (PendingEvent.dueAt_iff.mp hdue.2).2
        rw [hdue.1] at hlow
        simp only [Phase.tickLow] at hlow
        omega
      · exact ⟨by omega, iff_of_false (by simp) fun h =>
          hdue ⟨h.1, PendingEvent.dueAt_iff.mpr ⟨hr, h.2.1.ge⟩⟩, fun _ => ⟨hb, hreason⟩,
          fun h => by cases h⟩
    · rw [hsettled ho, ite_self]
      exact ⟨by omega, iff_of_false (by simp) fun h => ho h.2.2, fun h => absurd h ho,
        fun h => by cases h⟩
  · obtain ⟨j, hj, hend⟩ := reaches_ioEvents htab 2 i
    refine ⟨j, hj, hend.imp_right fun h => ⟨h.1, ?_⟩⟩
    rw [h.2, he]
    simp [ioEvent, ioDuration]

/-- A process that writes once. -/
def writerWorkload : List ProcessSpec :=
  [⟨0, [], .normal, [], 0, 0, [⟨0, [.ioWrite, .compute], 9⟩]⟩]

/-- Its event is completed at tick `3`, and until then its thread is blocked. -/
theorem io_event_completed_once_writer :
    let run := machineRun (kernelInit .zero ⟨.rr, 0, true, false⟩ writerWorkload)
    completions (run 48) (ioEvent (run 6).1 0 ((run 6).1.tcb 0).ownerPid
      (logPath ((run 6).1.tcb 0).ownerPid (run 6).1.ioSeq)) = 1 ∧
      ((run 48).1.tcb 0).state = .blocked := by
  intro run
  have hw : ValidWorkload writerWorkload := by decide
  have hwrite : ioWritingAt (run 6) = some 0 := by decide +kernel
  have hslot : freeSlot (run 6).1 = some 0 := by decide +kernel
  have hother : ∀ m < 48, m ≠ 6 → ioWritingAt (run m) = none := by decide +kernel
  have hstale : staleEvents (run 6).1 0 = [] := by decide +kernel
  have hthree : ∀ m < 48, ∀ e ∈ (run m).1.events, e.completionTick = 3 := by decide +kernel
  have htaken : ∀ m < 48, takenIds (run m) = [] := by decide +kernel
  have hc : ∀ m < 48, IoUndisturbed (run m) := by
    refine fun m hm => ⟨fun t slot ht hs e he => ?_, fun _ e he e' he' _ hr' _ hdue => ?_,
      fun t ht => ?_⟩
    · by_cases hm6 : m = 6
      · subst hm6
        rw [hslot] at hs
        cases hs
        rw [hstale] at he
        exact absurd he List.not_mem_nil
      · rw [hother m hm hm6] at ht
        cases ht
    · have hle := (PendingEvent.dueAt_iff.mp hdue).2
      rw [hthree m hm e he] at hle
      exact PendingEvent.dueAt_iff.mpr ⟨hr', (hthree m hm e' he').le.trans hle⟩
    · exact absurd ht (not_mem_resolvedBy (htaken m hm) t)
  have hphase : (run 48).2 = .ioEvents := by decide +kernel
  have htick : (run 48).1.currentTick = 3 := by decide +kernel
  have hbefore : ∀ l < 48, 6 < l → ((run l).2 = .ioEvents → (run l).1.currentTick ≠ 3) ∧
      endingAt (run l) = none := by decide +kernel
  have hstart : (run 6).1.currentTick = 0 := by decide +kernel
  have hrun : run = machineRun (kernelInit .zero ⟨.rr, 0, true, false⟩ writerWorkload) := rfl
  clear_value run
  have hdue : (ioEvent (run 6).1 0 ((run 6).1.tcb 0).ownerPid
      (logPath ((run 6).1.tcb 0).ownerPid (run 6).1.ioSeq)).completionTick = 3 := by
    simp [ioEvent, hstart, ioDuration]
  have hout : Outstanding run 6 48 (ioEvent (run 6).1 0 ((run 6).1.tcb 0).ownerPid
      (logPath ((run 6).1.tcb 0).ownerPid (run 6).1.ioSeq)) := by
    rintro l hl hl' (⟨hp, ht⟩ | ⟨p, hp, -⟩)
    · exact (hbefore l hl' hl).1 hp (ht.trans hdue)
    · rw [(hbefore l hl' hl).2] at hp
      cases hp
  obtain ⟨-, hiff, hblocked, -⟩ :=
    (io_event_completed_once .zero ⟨.rr, 0, true, false⟩ hw hrun hc hwrite hslot rfl).1 48
      (by decide) le_rfl
  exact ⟨hiff.mpr ⟨hphase, htick.trans hdue.symm, hout⟩, (hblocked hout).1⟩

/-- Three writers, of which the third starts when the event of the first has been completed. -/
def copiedWorkload : List ProcessSpec :=
  [⟨0, [], .normal, [], 0, 0, [⟨0, [.ioWrite, .compute], 9⟩]⟩,
    ⟨1, [], .normal, [], 0, 0, [⟨1, [.ioWrite, .compute], 9⟩]⟩,
    ⟨2, [], .normal, [], 0, 2, [⟨2, [.compute, .ioWrite], 9⟩]⟩]

/-- The event of the second is moved to slot `0`, the third takes slot `2`, and at tick `4` the
event is completed in slot `0` and in slot `1`, where it was before. -/
theorem io_event_completed_twice :
    let run := machineRun (kernelInit .zero ⟨.rr, 0, true, false⟩ copiedWorkload)
    ValidWorkload copiedWorkload ∧ ioWritingAt (run 22) = some 1 ∧
      freeSlot (run 22).1 = some 1 ∧ ioWritingAt (run 54) = some 2 ∧
      freeSlot (run 54).1 = some 2 ∧ (run 66).1.currentTick = 4 ∧
      completions (run 66) (ioEvent (run 22).1 1 ((run 22).1.tcb 1).ownerPid
        (logPath ((run 22).1.tcb 1).ownerPid (run 22).1.ioSeq)) = 2 := by
  refine ⟨by decide, ?_⟩
  decide +kernel

end FleetOS
