import FleetOS.IoEvents

/-!
# A slot for every blocked thread

A thread that writes or faults is blocked before a slot for its event is looked for, and the
search can fail without a sign. Where every search finds a slot (`FindsSlot`), a thread that is
blocked for I/O or for a page has an event of its process that is due in time (`HasEvent`) : its
own one, until it is woken. Only a completion takes an event of a process that goes on, and it
wakes the threads that are blocked for it (`due_woken_machineStep`).
-/

namespace FleetOS

def BlockReason.duration : BlockReason → ℤ
  | .ioBlock => ioDuration
  | .pageFault => pageFaultDuration
  | _ => 0

/-- The thread that faults in this part of a tick : its process has no page left to use. -/
def pageFaultingAt (m : Kernel × Phase) : Option ℕ :=
  (faultingAt m).filter fun t => (m.1.findProc (m.1.tcb t).ownerPid).any fun p =>
    memGetPageCount (m.1.procs p) < maxPages ∧
      (memAccess m.1.mem (m.1.procs p) (memGetPageCount (m.1.procs p) * pageSize)).ret < 0

/-- A thread that writes or faults in this part of a tick finds a slot for its event. -/
structure FindsSlot (m : Kernel × Phase) : Prop where
  write : ioWritingAt m ≠ none → freeSlot m.1 ≠ none
  fault : pageFaultingAt m ≠ none → faultSlot m.1 ≠ none

/-- The tick in which thread `t` was blocked last, in the first `n` parts of a run. -/
def blockTick (run : ℕ → Kernel × Phase) (t : ℕ) : ℕ → ℤ
  | 0 => 0
  | n + 1 =>
    if ((run n).1.tcb t).state ≠ .blocked ∧ ((run (n + 1)).1.tcb t).state = .blocked then
      (run n).1.currentTick
    else blockTick run t n

/-- An event of the process of thread `t`, for what `t` waits for, is due until `tick`. -/
def HasEvent (k : Kernel) (t : ℕ) (tick : ℤ) : Prop :=
  ∃ e ∈ k.events, e.pid = (k.tcb t).ownerPid ∧ e.reason = (k.tcb t).waitReason ∧
    e.completionTick ≤ tick

variable {m : Kernel × Phase} {t : ℕ}

/-- A thread that stays blocked keeps its event. -/
theorem hasEvent_of_same (h : MachineTables m) (ht : t < m.1.threadCount)
    (hb : (m.1.tcb t).state = .blocked) (hsame : (machineStep m).1.tcb t = m.1.tcb t) {tick : ℤ}
    (he : HasEvent m.1 t tick) : HasEvent (machineStep m).1 t tick := by
  obtain ⟨e, he, ho, hr, htick⟩ := he
  have hb' : ((machineStep m).1.tcb t).state = .blocked := hsame ▸ hb
  rw [HasEvent, hsame]
  refine ⟨e, ?_, ho, hr, htick⟩
  cases events_machineStep h with
  | same _ _ _ _ hl => exact hl ▸ he
  | ended p hend hl =>
    rw [hl]
    refine List.mem_filter.mpr ⟨he, decide_eq_true fun hpid => ?_⟩
    have hdone := (cleanedUp_machineStep h hend).2.2 t ⟨ht, ho.symm.trans hpid⟩
    rw [hb'] at hdone
    cases hdone
  | completed reason hp hl =>
    rw [hl]
    refine List.mem_filter.mpr ⟨he, ?_⟩
    cases hdue : e.dueAt m.1.currentTick reason with
    | false => rfl
    | true =>
      have hreason : e.reason = reason := by
        rw [PendingEvent.dueAt, decide_eq_true_eq] at hdue
        exact hdue.1
      have hready := due_woken_machineStep h hp he hdue ht ho hb (hr.symm.trans hreason)
      rw [hb'] at hready
      cases hready
  | faulted _ _ _ _ _ hl => exact hl.mem_iff.mpr (List.mem_cons_of_mem _ he)
  | registered _ _ _ _ hl =>
    exact hl.mem_iff.mpr (List.mem_cons_of_mem _ (List.mem_append_left _ he))

/-- A thread that is blocked for I/O in this part has its event. -/
theorem hasEvent_of_write (h : MachineTables m) (hs : FindsSlot m) (hw : ioWritingAt m = some t)
    (hr : ((machineStep m).1.tcb t).waitReason = .ioBlock) :
    HasEvent (machineStep m).1 t (m.1.currentTick + ioDuration) := by
  obtain ⟨slot, hslot⟩ := Option.ne_none_iff_exists'.mp
    (hs.write (by rw [hw]; exact Option.some_ne_none t))
  have howner : ((machineStep m).1.tcb t).ownerPid = (m.1.tcb t).ownerPid :=
    congrArg (fun i => i.2.1) ((tableStep h).ident t)
  have hex := (execute_of_ioWritingAt hw).1
  refine ⟨ioEvent m.1 slot (m.1.tcb t).ownerPid (logPath (m.1.tcb t).ownerPid m.1.ioSeq), ?_,
    howner.symm, hr.symm, le_rfl⟩
  cases events_machineStep h with
  | same _ _ _ hnone _ =>
    rw [hw, hslot] at hnone
    rcases hnone with hnone | hnone <;> cases hnone
  | ended p hend _ =>
    obtain ⟨k, ph⟩ := m
    obtain rfl : ph = .execute := hex
    cases hend
  | completed reason hp _ => rcases hp with ⟨hp, -⟩ | ⟨hp, -⟩ <;> rw [hex] at hp <;> cases hp
  | faulted u slot' page hf _ _ =>
    obtain ⟨k, ph⟩ := m
    obtain rfl : ph = .execute := hex
    cases hf
  | registered u slot' hw' hs' hl =>
    obtain rfl : t = u := Option.some.inj (hw.symm.trans hw')
    obtain rfl : slot = slot' := Option.some.inj (hslot.symm.trans hs')
    exact hl.mem_iff.mpr List.mem_cons_self

/-- Where no thread faults the threads stay as they are. -/
theorem triggerPageFault_faulting (k : Kernel) :
    (triggerPageFault k).sched = k.sched ∨
      ∃ t p mem page, pageFaultingAt (k, .pageFault) = some t ∧ k.runningThread = some t ∧
        k.findProc (k.tcb t).ownerPid = some p ∧
        triggerPageFault k =
          registerPageFault (blockThread { k with mem := mem } t .pageFault) (k.procs p).pid page := by
  unfold triggerPageFault
  split_ifs with hd ht
  · exact Or.inl rfl
  · exact Or.inl rfl
  rw [not_or, not_le, not_not] at ht
  cases hrun : k.runningThread with
  | none => exact Or.inl rfl
  | some t =>
    cases hp : k.findProc (k.tcb t).ownerPid with
    | none => exact Or.inl (by simp only [hp])
    | some p =>
      simp only [hp]
      split_ifs with hpages hret
      · exact Or.inl rfl
      · refine Or.inr ⟨t, p, _, _, ?_, rfl, hp, rfl⟩
        simp [pageFaultingAt, faultingAt, hrun, hp, hd, ht.1, ht.2, not_le.mp hpages, hret]
      · exact Or.inl rfl

/-- A thread that runs and is blocked for a page in this part has its event. -/
theorem hasEvent_of_fault {k : Kernel} (h : MachineTables (k, .pageFault))
    (hs : FindsSlot (k, .pageFault)) (hrun : k.runningThread = some t)
    (hb : ((triggerPageFault k).tcb t).state = .blocked)
    (hr : ((triggerPageFault k).tcb t).waitReason = .pageFault) :
    HasEvent (triggerPageFault k) t (k.currentTick + pageFaultDuration) := by
  have howner : ((triggerPageFault k).tcb t).ownerPid = (k.tcb t).ownerPid :=
    congrArg (fun i => i.2.1) ((tableStep h).ident t)
  rcases triggerPageFault_faulting k with he | ⟨u, p, mem, page, hf, hrun', hp, he⟩
  · -- the thread runs before
    rw [Kernel.tcb, he, show (k.sched.tcb t).state = .running from (runningThread_some hrun).2] at hb
    cases hb
  obtain rfl : t = u := Option.some.inj (hrun.symm.trans hrun')
  obtain ⟨slot, hslot⟩ := Option.ne_none_iff_exists'.mp
    (hs.fault (by rw [hf]; exact Option.some_ne_none t))
  have hsteady := steady_blockThread { k with mem := mem } t .pageFault
  set k₁ := blockThread { k with mem := mem } t .pageFault
  have hslot₁ : faultSlot k₁ = some slot := by
    rw [← hslot, faultSlot, hsteady.pending, hsteady.pendingCount]
    rfl
  refine ⟨faultEvent k₁ slot (k.procs p).pid page, ?_, ?_, hr.symm, ?_⟩
  · rw [he]
    exact (events_registerPageFault hslot₁ _ page).mem_iff.mpr List.mem_cons_self
  · exact (findProc_some hp).2.trans howner.symm
  · rw [faultEvent]
    exact (congrArg (· + pageFaultDuration) hsteady.currentTick).le

/-- What the blocking of a thread for I/O or for a page leaves : its event. -/
theorem hasEvent_of_blocks (h : MachineTables m) (hs : FindsSlot m) (hrun : m.1.runningThread = some t)
    (hb : ((machineStep m).1.tcb t).state = .blocked)
    (hf : BlocksFor m t ((machineStep m).1.tcb t).waitReason)
    (hr : ((machineStep m).1.tcb t).waitReason = .ioBlock ∨
      ((machineStep m).1.tcb t).waitReason = .pageFault) :
    HasEvent (machineStep m).1 t
      (m.1.currentTick + ((machineStep m).1.tcb t).waitReason.duration) := by
  obtain ⟨k, ph⟩ := m
  cases ph with
  | execute =>
    obtain ⟨-, hreason⟩ := hf
    rw [hreason] at hr
    have hcmd : threadCurrentCommand (k.tcb t) = .ioWrite := by
      cases hc : threadCurrentCommand (k.tcb t) <;> rw [hc] at hr <;> revert hr <;> decide
    have hio : ((machineStep (k, .execute)).1.tcb t).waitReason = .ioBlock := by
      rw [hreason, hcmd]
      rfl
    rw [hio]
    have hw : ioWritingAt (k, .execute) = some t := by
      rw [ioWritingAt, show k.runningThread = some t from hrun, Option.filter_some, hcmd]
      rfl
    exact hasEvent_of_write h hs hw hio
  | pageFault =>
    have hpf : ((triggerPageFault k).tcb t).waitReason = .pageFault := hf
    have he := hasEvent_of_fault h hs hrun hb hpf
    change HasEvent (triggerPageFault k) t
      (k.currentTick + ((triggerPageFault k).tcb t).waitReason.duration)
    rw [hpf]
    exact he
  | _ => cases hf

/-! ## Runs -/

/-- In a run that finds a slot for each of its events, every thread that is blocked for I/O or for a
page has an active event of its process below `pending_count`, for the same reason and due within
its duration. -/
theorem blocked_has_event (k₀ : Kernel) (cfg : KernelConfig) {w : List ProcessSpec}
    (hw : ValidWorkload w) {run : ℕ → Kernel × Phase} (hrun : run = machineRun (kernelInit k₀ cfg w))
    {n : ℕ} (hs : ∀ m < n, FindsSlot (run m)) (t : ℕ) (ht : t < (run n).1.threadCount)
    (hb : ((run n).1.tcb t).state = .blocked)
    (hr : ((run n).1.tcb t).waitReason = .ioBlock ∨ ((run n).1.tcb t).waitReason = .pageFault) :
    ∃ i < (run n).1.pendingCount, ((run n).1.pending i).active = true ∧
      ((run n).1.pending i).pid = ((run n).1.tcb t).ownerPid ∧
      ((run n).1.pending i).reason = ((run n).1.tcb t).waitReason ∧
      ((run n).1.pending i).completionTick ≤
        blockTick run t n + ((run n).1.tcb t).waitReason.duration := by
  have htab : ∀ n, MachineTables (run n) := hrun ▸ tables_machineRun k₀ cfg hw
  have hsucc : ∀ n, run (n + 1) = machineStep (run n) := hrun ▸ machineRun_succ _
  have hmain : HasEvent (run n).1 t (blockTick run t n + ((run n).1.tcb t).waitReason.duration) := by
    induction n with
    | zero =>
      have hready : ((run 0).1.tcb t).state = .ready := by
        subst hrun
        exact (loading_kernelInit k₀ cfg hw).ready t ht
      rw [hready] at hb
      cases hb
    | succ n ih =>
      have hn : (run (n + 1)).1.threadCount = (run n).1.threadCount := by
        rw [hsucc]
        exact (tableStep (htab n)).threadCount
      rw [hn] at ht
      have hb' := hb
      have hr' := hr
      rw [hsucc] at hb' hr'
      rcases blocked_before (htab n) hb' with hsame | ⟨hrunning, hf⟩
      · have hbn : ((run n).1.tcb t).state = .blocked := hsame ▸ hb'
        have he := hasEvent_of_same (htab n) ht hbn hsame
          (ih (fun m hm => hs m (by omega)) ht hbn (hsame ▸ hr'))
        rw [blockTick, if_neg fun h => h.1 hbn, hsucc, hsame]
        exact he
      · have hnot : ((run n).1.tcb t).state ≠ .blocked :=
          ne_of_eq_of_ne (runningThread_some hrunning).2 (by decide)
        rw [blockTick, if_pos ⟨hnot, hb⟩, hsucc]
        exact hasEvent_of_blocks (htab n) (hs n n.lt_succ_self) hrunning hb' hf hr'
  obtain ⟨e, he, hpid, hreason, htick⟩ := hmain
  obtain ⟨i, hi, rfl, ha⟩ := mem_events.mp he
  exact ⟨i, hi, ha, hpid, hreason, htick⟩

/-- The writer finds slot `0`, and its event is due in three ticks. -/
theorem blocked_has_event_writer :
    let run := machineRun (kernelInit .zero ⟨.rr, 0, true, false⟩ writerWorkload)
    ((run 16).1.tcb 0).state = .blocked ∧ ∃ i < (run 16).1.pendingCount,
      ((run 16).1.pending i).active = true ∧
        ((run 16).1.pending i).pid = ((run 16).1.tcb 0).ownerPid ∧
        ((run 16).1.pending i).reason = ((run 16).1.tcb 0).waitReason ∧
        ((run 16).1.pending i).completionTick ≤
          blockTick run 0 16 + ((run 16).1.tcb 0).waitReason.duration := by
  intro run
  have hw : ValidWorkload writerWorkload := by decide
  have hfind : ∀ m < 16, (ioWritingAt (run m) ≠ none → freeSlot (run m).1 ≠ none) ∧
      pageFaultingAt (run m) = none := by decide +kernel
  have hs : ∀ m < 16, FindsSlot (run m) :=
    fun m hm => ⟨(hfind m hm).1, fun hf => absurd (hfind m hm).2 hf⟩
  have ht : 0 < (run 16).1.threadCount := by decide +kernel
  have hb : ((run 16).1.tcb 0).state = .blocked := by decide +kernel
  have hr : ((run 16).1.tcb 0).waitReason = .ioBlock := by decide +kernel
  exact ⟨hb, blocked_has_event .zero ⟨.rr, 0, true, false⟩ hw rfl hs 0 ht hb (Or.inl hr)⟩

end FleetOS
