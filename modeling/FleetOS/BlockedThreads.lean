import FleetOS.PendingEvents

/-!
# Blocked threads

`threadStep` : what a part of a tick does to one thread, whichever part it is. A blocked thread
is woken because an id taken out of a wait queue of the buffer resolves to it, because an event
of its process is due, or because it is served a resource (`Woken`) ; else it stays as it is
or its process ends (`blocked_machineStep`). A thread that is blocked afterwards was so before,
or blocked in this part (`blocked_before`).
-/

namespace FleetOS

open Scheduler (Frame)

/-- What a part of a tick does to a thread. -/
inductive ThreadStep (m : Kernel × Phase) (k' : Kernel) (t : ℕ) : Prop
  | untouched (hp : m.1.sched.Parked t → k'.tcb t = m.1.tcb t)
      (hs : k'.sched.Stopped t → (k'.tcb t).state = (m.1.tcb t).state)
  | arrived (hb : (m.1.tcb t).state = .ready) (hr : (k'.tcb t).state = .ready)
  | woken (hw : Woken m t) (hr : (k'.tcb t).state = .ready)
  | ended (p : ℕ) (he : endingAt m = some p) (ht : t ∈ m.1.owned (m.1.procs p).pid)
      (hd : (k'.tcb t).state = .done)
  | ran (hb : (m.1.tcb t).state = .running) (hd : (k'.tcb t).state ≠ .blocked)
  | blocked (reason : BlockReason) (hrun : m.1.runningThread = some t)
      (hf : BlocksFor m t reason) (hb : (k'.tcb t).state = .blocked)
      (hr : (k'.tcb t).waitReason = reason)

variable {m : Kernel × Phase} {k' : Kernel} {t : ℕ}

theorem ThreadStep.of_frame {n : ℕ} {touched : Set ℕ} (h : Frame m.1.sched k'.sched n touched)
    (ht : t ∉ touched) : ThreadStep m k' t :=
  .untouched (fun hp => (h.parked t ht hp).1) (h.stopped t ht)

theorem ThreadStep.of_sched (h : k'.sched = m.1.sched) : ThreadStep m k' t := by
  refine .untouched (fun _ => ?_) fun _ => ?_ <;> simp only [Kernel.tcb, h]

theorem Faulted.threadStep {p : ℕ} (hf : Faulted m.1 k' p) (he : faultedAt m = some p) :
    ThreadStep m k' t := by
  obtain ⟨s, hq, hend⟩ := hf.threads
  by_cases ho : t ∈ m.1.owned (m.1.procs p).pid
  · exact .ended p (endingAt_of_faultedAt he) ho (hend.done t ho)
  · by_cases hw : t ∈ servedBy m.1 (deadlockResolve m.1.graph (m.1.procs p).pid).2
    · have hsame : k'.sched.tcb t = s.tcb t := hend.same t ho
      refine .woken (.served (by simp [he]) hw.2.2.1 hw.2.2.2) ?_
      rw [Kernel.tcb, hsame]
      exact hq.ready t hw
    · refine .of_frame ((hq.frame.mono Set.subset_union_left).trans
        (hend.frame.mono Set.subset_union_right)) ?_
      rw [Set.mem_union, not_or]
      exact ⟨hw, ho⟩

theorem threadStep (h : MachineTables m) (t : ℕ) : ThreadStep m (machineStep m).1 t := by
  cases part_machineStep h with
  | idle _ _ hf => exact .of_frame hf (Set.notMem_empty t)
  | arrived _ ha =>
    obtain ⟨woken, hq, hw⟩ := ha.threads
    by_cases ht : t ∈ woken
    · exact .arrived (hw t ht).2 (hq.ready t ht)
    · exact .of_frame hq.frame ht
  | woken _ _ s hq hw =>
    by_cases ht : t ∈ s
    · exact .woken (hw t ht) (hq.ready t ht)
    · exact .of_frame hq.frame ht
  | continued _ _ r hrun hx =>
    by_cases htr : t = r
    · exact .ran (htr ▸ (runningThread_some hrun).2)
        (ne_of_eq_of_ne (htr ▸ hx.running) (by decide))
    · by_cases hw : t ∈ resolvedBy m.1 (takenIds m)
      · exact .woken (.taken hw) (hx.ready t hw)
      · refine .of_frame hx.frame ?_
        rw [Set.mem_union, not_or]
        exact ⟨htr, hw⟩
  | blocked _ _ r reason hrun hr hx =>
    by_cases htr : t = r
    · subst htr
      exact .blocked reason hrun hr hx.blocked hx.waitReason
    · exact .of_frame hx.frame htr
  | retired _ _ r hrun hf _ hd =>
    by_cases htr : t = r
    · exact .ran (htr ▸ hrun) (ne_of_eq_of_ne (htr ▸ hd) (by decide))
    · exact .of_frame hf htr
  | ended p he _ _ _ r _ ho s hf _ _ hend =>
    by_cases hown : t ∈ m.1.owned (m.1.procs p).pid
    · exact .ended p he hown (hend.done t hown)
    · refine .of_frame ((hf.mono Set.subset_union_left).trans
        (hend.frame.mono Set.subset_union_right)) ?_
      rw [Set.mem_union, not_or]
      exact ⟨fun htr => hown (Set.mem_singleton_iff.mp htr ▸ ho), hown⟩
  | faulted p he hf => exact hf.threadStep he
  | ticked _ hk => exact .of_sched (by rw [hk])

/-- A blocked thread is not queued. -/
theorem Tables.parked_of_blocked {k : Kernel} (h : Tables k) {t : ℕ}
    (hb : (k.tcb t).state = .blocked) : k.sched.Parked t := by
  have hb : (k.sched.tcb t).state = .blocked := hb
  refine ⟨fun hq => ?_, ne_of_eq_of_ne hb (by decide)⟩
  rcases h.disciplined.queued_state t hq with hs | hs <;> rw [hb] at hs <;> cases hs

/-- A blocked thread stays as it is, or it is woken, or its process ends. -/
theorem blocked_machineStep (h : MachineTables m) (hb : (m.1.tcb t).state = .blocked) :
    (machineStep m).1.tcb t = m.1.tcb t ∨
      (Woken m t ∧ ((machineStep m).1.tcb t).state = .ready) ∨
      ∃ p, endingAt m = some p ∧ (m.1.tcb t).ownerPid = (m.1.procs p).pid := by
  cases threadStep h t with
  | untouched hp hs => exact Or.inl (hp (h.tables.parked_of_blocked hb))
  | arrived hr hr' => exact absurd hr (ne_of_eq_of_ne hb (by decide))
  | woken hw hr => exact Or.inr (Or.inl ⟨hw, hr⟩)
  | ended p he ht hd => exact Or.inr (Or.inr ⟨p, he, ht.2⟩)
  | ran hr hd => exact absurd hr (ne_of_eq_of_ne hb (by decide))
  | blocked reason hrun hf hb' hr =>
    exact absurd (runningThread_some hrun).2 (ne_of_eq_of_ne hb (by decide))

/-- A thread that is blocked was blocked before, or it has just blocked. -/
theorem blocked_before (h : MachineTables m) (hb : ((machineStep m).1.tcb t).state = .blocked) :
    (machineStep m).1.tcb t = m.1.tcb t ∨
      m.1.runningThread = some t ∧ BlocksFor m t ((machineStep m).1.tcb t).waitReason := by
  cases threadStep h t with
  | untouched hp hs =>
    exact Or.inl (hp (h.tables.parked_of_blocked ((hs (Or.inl hb)).symm.trans hb)))
  | arrived hr hr' => exact absurd hr' (ne_of_eq_of_ne hb (by decide))
  | woken hw hr => exact absurd hr (ne_of_eq_of_ne hb (by decide))
  | ended p he ht hd => exact absurd hd (ne_of_eq_of_ne hb (by decide))
  | ran hr hd => exact absurd hb hd
  | blocked reason hrun hf hb' hr => exact Or.inr ⟨hrun, hr ▸ hf⟩

/-- Ids are taken where a command executes or the waiters are woken. -/
theorem takenIds_eq_nil_of_endingAt {p : ℕ} (h : endingAt m = some p) : takenIds m = [] := by
  obtain ⟨k, ph⟩ := m
  cases ph <;> first | rfl | cases h

/-- A blocked thread that a taken id resolves to is ready afterwards. -/
theorem ready_of_taken (h : MachineTables m) (ht : t ∈ resolvedBy m.1 (takenIds m)) :
    ((machineStep m).1.tcb t).state = .ready := by
  obtain ⟨k, ph⟩ := m
  cases ph with
  | execute =>
    cases hrun : k.runningThread with
    | none =>
      simp only [takenIds, hrun, Option.map_none, Option.getD_none] at ht
      exact absurd ht (not_mem_resolvedBy rfl t)
    | some r =>
      simp only [takenIds, hrun, Option.map_some, Option.getD_some] at ht
      simp only [machineStep, hrun]
      rcases executeCommand_cases h.tables hrun with hx | ⟨hnil, -, -⟩
      · exact hx.ready t ht
      · exact absurd ht (not_mem_resolvedBy hnil t)
  | wakeWaiters =>
    exact ((drained_wakeBufferWaiters k).threads h.tables.disciplined rfl).ready t ht
  | _ => exact absurd ht (not_mem_resolvedBy rfl t)

/-- The completion of a due event wakes the threads that are blocked for it. -/
theorem due_woken_machineStep (h : MachineTables m) {reason : BlockReason}
    (hp : CompletesFor m.2 reason) {e : PendingEvent} (he : e ∈ m.1.events)
    (hdue : e.dueAt m.1.currentTick reason) (ht : t < m.1.threadCount)
    (ho : e.pid = (m.1.tcb t).ownerPid) (hb : (m.1.tcb t).state = .blocked)
    (hr : (m.1.tcb t).waitReason = reason) : ((machineStep m).1.tcb t).state = .ready := by
  obtain ⟨k, ph⟩ := m
  obtain ⟨i, hi, rfl, ha⟩ := mem_events.mp he
  have hawaits : k.Awaits reason i t := by
    refine ⟨ht, ?_, ?_, ho.symm, hb, hr⟩
    · rw [Kernel.due, decide_eq_true_eq]
      rw [PendingEvent.dueAt, decide_eq_true_eq] at hdue
      exact ⟨ha, hdue⟩
    · obtain ⟨p, -, -, hfind⟩ := h.tables.findProc_owner ht
      rw [ho, hfind]
      exact Option.some_ne_none p
  rcases hp with ⟨hp, rfl⟩ | ⟨hp, rfl⟩
  · obtain rfl : ph = .ioEvents := hp
    exact ((completed_completeIoEvents k).threads h.tables.disciplined).ready t
      ⟨i, List.mem_range.mpr hi, hawaits⟩
  · obtain rfl : ph = .pageFaults := hp
    exact ((completed_completePageFaults k).threads h.tables.disciplined).ready t
      ⟨i, List.mem_range.mpr hi, hawaits⟩

end FleetOS
