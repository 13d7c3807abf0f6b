import FleetOS.KernelBuffer
import FleetOS.WaitForGraph

/-!
# What a terminated process leaves behind

Nothing should name a process once it is terminated : it holds no resource and asks for none,
waits in no queue, owns no frame and has no event (`Withdrawn`).

A process that ends normally is not taken out of the resource graph, a thread of a victim that
was queued runs on, and an I/O event brings back what is left in the slots before it. Where none
of this happens (`EndsClean`) every terminated process is withdrawn, in every state of a run
(`terminated_process_withdrawn`).
-/

namespace FleetOS

/-- The pid belongs to a terminated process. -/
def Kernel.IsTerminated (k : Kernel) (pid : ℤ) : Prop :=
  ∃ p < k.procCount, (k.procs p).state = .terminated ∧ (k.procs p).pid = pid

/-- Nothing names process `x`. -/
structure Withdrawn (k : Kernel) (x : ℤ) : Prop where
  graph : k.graph.Cleared x
  buffer : x ∉ k.sensorBuf.waiters
  mutex : x ∉ k.sensorBuf.mutex.waitQueue
  frames : ∀ f, k.mem.frames f ≠ x
  events : ∀ e ∈ k.events, e.pid ≠ x

/-- The next command of thread `t` names its process in the graph, in a queue of the buffer or in
an event. -/
def LeavesTrace (k : Kernel) (t : ℕ) : Prop :=
  FailsOnBuffer k t ∨
    threadCurrentCommand (k.tcb t) = .acquireResource ∧ k.config.deadlockEnabled ∨
    threadCurrentCommand (k.tcb t) = .ioWrite ∧ freeSlot k ≠ none

/-- A process that ends normally has left the resource graph, no thread of a terminated process
leaves a trace, and no event of one comes back. -/
structure EndsClean (m : Kernel × Phase) : Prop where
  retired : ∀ p, endingAt m = some p → faultedAt m = none → m.1.graph.Cleared (m.1.procs p).pid
  executes : ∀ t, m.2 = .execute → m.1.runningThread = some t →
    m.1.IsTerminated (m.1.tcb t).ownerPid → ¬LeavesTrace m.1 t
  faults : ∀ t, faultingAt m = some t → m.1.IsTerminated (m.1.tcb t).ownerPid →
    faultSlot m.1 = none
  stale : ∀ t slot, ioWritingAt m = some t → freeSlot m.1 = some slot →
    ∀ e ∈ staleEvents m.1 slot, ¬m.1.IsTerminated e.pid

/-! ## The frames -/

theorem frames_resolvePageFault (m : PhysicalMemory) (procs : ℕ → PCB) (n p : ℕ) (page f : ℤ) :
    (resolvePageFault m procs n p page).1.frames f = m.frames f ∨
      (resolvePageFault m procs n p page).1.frames f = (procs p).pid := by
  have hmap : ∀ m : PhysicalMemory, ∀ g : ℤ,
      (mapPage m (procs p) page g).1.frames f = m.frames f ∨
        (mapPage m (procs p) page g).1.frames f = (procs p).pid := by
    intro m g
    change Function.update m.frames g (procs p).pid f = _ ∨
      Function.update m.frames g (procs p).pid f = _
    rw [Function.update_apply]
    split_ifs
    · exact Or.inr rfl
    · exact Or.inl rfl
  rcases resolvePageFault_cases m procs n p page with
    he | ⟨-, -, ⟨g, -, -, he⟩ | ⟨g, -, -, he⟩⟩ <;> rw [he]
  · exact Or.inl rfl
  · exact hmap { m with freeFrameCount := m.freeFrameCount - 1 } g
  · exact hmap m g

theorem frames_completePageFault {k : Kernel} {x : ℤ} {i : ℕ} (hf : ∀ f, k.mem.frames f ≠ x)
    (he : k.due .pageFault i = true → (k.pending i).pid ≠ x) (f : ℤ) :
    (completePageFault k i).mem.frames f ≠ x := by
  by_cases hdue : k.due .pageFault i = true
  · unfold completePageFault
    rw [hdue]
    simp only [Bool.not_true, Bool.false_eq_true, if_false]
    cases hp : k.findProc (k.pending i).pid with
    | none => exact hf f
    | some p =>
      have hpid := (findProc_some hp).2
      change (unblockOwned _ (k.procs p).pid .pageFault).mem.frames f ≠ x
      rw [(steady_unblockOwned _ _ _).mem]
      rcases frames_resolvePageFault k.mem k.procs k.procCount p (k.pending i).page f with hr | hr
      · exact ne_of_eq_of_ne hr (hf f)
      · exact ne_of_eq_of_ne (hr.trans hpid) (he hdue)
  · have hk : completePageFault k i = k := by simp [completePageFault, hdue]
    rw [hk]
    exact hf f

/-- A due event gives a frame to its own process only. -/
theorem frames_completePageFaults {k : Kernel} {x : ℤ} (hf : ∀ f, k.mem.frames f ≠ x)
    (he : ∀ e ∈ k.events, e.pid ≠ x) : ∀ f, (completePageFaults k).mem.frames f ≠ x := by
  have hall : ∀ i < k.pendingCount, (k.pending i).active = true → (k.pending i).pid ≠ x :=
    fun i hi ha => he _ (mem_events.mpr ⟨i, hi, rfl, ha⟩)
  have hloop : (∀ f, (completePageFaults k).mem.frames f ≠ x) ∧ ∀ i < k.pendingCount,
      ((completePageFaults k).pending i).active = true →
        ((completePageFaults k).pending i).pid ≠ x := by
    refine List.foldlRecOn (motive := fun k' : Kernel => (∀ f, k'.mem.frames f ≠ x) ∧
      ∀ i < k.pendingCount, (k'.pending i).active = true → (k'.pending i).pid ≠ x) _ _ ⟨hf, hall⟩
      fun k' hk' i hi => ⟨frames_completePageFault hk'.1 fun hdue => ?_, fun j hj ha => ?_⟩
    · simp only [Kernel.due, decide_eq_true_eq] at hdue
      exact hk'.2 i (List.mem_range.mp hi) hdue.1
    · rw [(completed_completePageFault k' i).pending] at ha ⊢
      by_cases hji : j = i
      · subst hji
        rw [Function.update_self] at ha ⊢
        split_ifs at ha ⊢
        exact hk'.2 j hj ha
      · rw [Function.update_of_ne hji] at ha ⊢
        exact hk'.2 j hj ha
  exact hloop.1

theorem frames_executeCommand (k : Kernel) (t : ℕ) : (executeCommand k t).mem = k.mem := by
  unfold executeCommand
  cases threadCurrentCommand (k.tcb t) with
  | compute => rfl
  | produceData => exact (steady_executeProduce k t).mem
  | consumeData => exact (steady_executeConsume k t).mem
  | acquireResource => exact (steady_executeAcquire k t).mem
  | ioWrite =>
    obtain ⟨k₁, fs, hs, he⟩ := executeIoWrite_eq k t
    have hm : (executeIoWrite k t).mem = k.mem := by
      rw [he, registerIo_rest]
      exact hs.mem
    exact hm

variable {m : Kernel × Phase} {x : ℤ}

theorem frames_machineStep (h : MachineTables m) (hend : endingAt m = none)
    (hf : ∀ f, m.1.mem.frames f ≠ x) (he : ∀ e ∈ m.1.events, e.pid ≠ x) :
    ∀ f, (machineStep m).1.mem.frames f ≠ x := by
  cases hb : m.2.busy with
  | false =>
    rw [(quiet_machineStep h hend hb).frames]
    exact hf
  | true =>
  obtain ⟨k, ph⟩ := m
  cases ph with
  | ioEvents =>
    have hm : (completeIoEvents k).mem = k.mem := by
      refine List.foldlRecOn (motive := fun k' : Kernel => k'.mem = k.mem) _ _ rfl
        fun k' hk' i _ => ?_
      unfold completeIoEvent
      split_ifs
      · exact hk'
      · dsimp only
        split
        · exact hk'
        · exact (steady_unblockOwned _ _ _).mem.trans hk'
    exact fun f => hm ▸ hf f
  | pageFaults => exact frames_completePageFaults hf he
  | compact => exact hf
  | execute =>
    simp only [machineStep]
    split
    · exact hf
    · rw [frames_executeCommand]
      exact hf
  | pageFault =>
    intro f
    change (triggerPageFault k).mem.frames f ≠ x
    rw [(triggerPageFault_keeps k).2.2]
    exact hf f
  | wakeWaiters => exact fun f => (drained_wakeBufferWaiters k).steady.mem ▸ hf f
  | _ => cases hb

/-! ## The step -/

theorem graph_withdrawn (hg : MachineGraph m) (hc : EndsClean m) (hx : m.1.IsTerminated x)
    (h : m.1.graph.Cleared x) : (machineStep m).1.graph.Cleared x := by
  have hpos : 0 ≤ x := by
    obtain ⟨p, hp, -, rfl⟩ := hx
    exact (hg.tables.tables.pid_range p hp).1
  cases hf : faultedAt m with
  | some p =>
    rw [(faulted_machineStep hg.tables hf).graph]
    exact h.resolve hg.rows hpos _
  | none =>
    rw [graph_machineStep hg.tables hf]
    cases hr : requestingAt m with
    | none => exact h
    | some t =>
      refine h.deadlockRequest (fun ho => ?_) _
      obtain ⟨k, ph⟩ := m
      cases ph with
      | execute =>
        obtain ⟨hrun, hcmd⟩ := Option.filter_eq_some_iff.mp hr
        exact hc.executes t rfl hrun (ho.symm ▸ hx) (Or.inr (Or.inl (by simpa using hcmd)))
      | _ => cases hr

theorem buffer_withdrawn (h : MachineTables m) (hb : m.1.sensorBuf.Inv) (hc : EndsClean m)
    (hx : m.1.IsTerminated x) (hw : x ∉ m.1.sensorBuf.waiters) :
    x ∉ (machineStep m).1.sensorBuf.waiters := by
  rw [sensorBuf_machineStep h]
  cases he : endingAt m with
  | some p =>
    dsimp only
    rw [releaseMutex_eq (removePid_inv hb _).1, waiters_bufferRemovePid]
    exact fun hm => hw (List.mem_filter.mp hm).1
  | none =>
    dsimp only
    obtain ⟨k, ph⟩ := m
    cases ph with
    | execute =>
      cases hr : k.runningThread with
      | none => simpa only [bufferAt, hr, Option.map_none, Option.getD_none] using hw
      | some t =>
        simp only [bufferAt, hr, Option.map_some, Option.getD_some]
        intro hm
        rcases mem_waiters_executeBuffer hb hm with hm | ⟨ho, hf⟩
        · exact hw hm
        · exact hc.executes t rfl hr (ho ▸ hx) (Or.inl hf)
    | wakeWaiters => exact fun hm => hw (mem_waiters_bufferWoken hm)
    | _ => exact hw

theorem events_withdrawn (h : MachineTables m) (hc : EndsClean m) (hx : m.1.IsTerminated x)
    (hev : ∀ e ∈ m.1.events, e.pid ≠ x) : ∀ e ∈ (machineStep m).1.events, e.pid ≠ x := by
  intro e he
  cases events_machineStep h with
  | same _ _ _ _ hl => exact hev e (hl ▸ he)
  | ended p _ hl =>
    rw [hl] at he
    exact hev e (List.mem_filter.mp he).1
  | completed reason _ hl =>
    rw [hl] at he
    exact hev e (List.mem_filter.mp he).1
  | faulted t slot page hf hs hl =>
    rcases List.mem_cons.mp (hl.mem_iff.mp he) with rfl | he
    · rintro rfl
      exact absurd (hc.faults t hf hx) (ne_of_eq_of_ne hs (Option.some_ne_none slot))
    · exact hev e he
  | registered t slot hw hs hl =>
    rcases List.mem_cons.mp (hl.mem_iff.mp he) with rfl | he
    · rintro rfl
      obtain ⟨k, ph⟩ := m
      cases ph with
      | execute =>
        obtain ⟨hrun, hcmd⟩ := Option.filter_eq_some_iff.mp hw
        refine hc.executes t rfl hrun hx (Or.inr (Or.inr ⟨by simpa using hcmd, ?_⟩))
        exact ne_of_eq_of_ne hs (Option.some_ne_none slot)
      | _ => cases hw
    · rcases List.mem_append.mp he with he | he
      · exact hev e he
      · rintro rfl
        exact hc.stale t slot hw hs e he hx

/-- A terminated process stays withdrawn. -/
theorem Withdrawn.machineStep (h : Withdrawn m.1 x) (hg : MachineGraph m)
    (hb : m.1.sensorBuf.Inv) (hc : EndsClean m) (hx : m.1.IsTerminated x) :
    Withdrawn (machineStep m).1 x := by
  have hb' := bufferInv_machineStep hg.tables hb
  refine ⟨graph_withdrawn hg hc hx h.graph, buffer_withdrawn hg.tables hb hc hx h.buffer, ?_, ?_,
    events_withdrawn hg.tables hc hx h.events⟩
  · rw [waitQueue_mutex hb']
    exact List.not_mem_nil
  · cases he : endingAt m with
    | none => exact frames_machineStep hg.tables he h.frames h.events
    | some p =>
      obtain ⟨q, hq, -, rfl⟩ := hx
      have hpos := (hg.tables.tables.pid_range q hq).1
      rw [(cleanedUp_machineStep hg.tables he).2.1.frames]
      intro f
      dsimp only
      split_ifs
      · omega
      · exact h.frames f

/-- A process that ends is withdrawn. -/
theorem withdrawn_of_endingAt (hg : MachineGraph m) (hb : m.1.sensorBuf.Inv) (hc : EndsClean m)
    {p : ℕ} (he : endingAt m = some p) : Withdrawn (machineStep m).1 (m.1.procs p).pid := by
  obtain ⟨hp, hcl, -⟩ := cleanedUp_machineStep hg.tables he
  have hpid := hg.tables.tables.pid_range p hp
  have hbuf : (machineStep m).1.sensorBuf = bufferRemovePid m.1.sensorBuf (m.1.procs p).pid :=
    hcl.sensorBuf.trans (releaseMutex_eq (removePid_inv hb _).1 _)
  refine ⟨?_, ?_, ?_, fun f => ?_, fun e hev => ?_⟩
  · cases hf : faultedAt m with
    | some q =>
      have hqp : q = p := Option.some.inj ((endingAt_of_faultedAt hf).symm.trans he)
      rw [(faulted_machineStep hg.tables hf).graph, hqp]
      exact ResourceGraph.cleared_deadlockResolve hg.rows hg.waiters hpid
    | none =>
      rw [graph_machineStep hg.tables hf]
      cases hr : requestingAt m with
      | none => exact hc.retired p he hf
      | some t =>
        obtain ⟨k, ph⟩ := m
        cases ph <;> first | cases hr | cases he
  · rw [hbuf, waiters_bufferRemovePid]
    exact fun hm => by simp at hm
  · rw [waitQueue_mutex (bufferInv_machineStep hg.tables hb)]
    exact List.not_mem_nil
  · rw [hcl.frames]
    dsimp only
    split_ifs with hf
    · have := hpid.1
      omega
    · exact hf
  · rw [events_congr (k := cancelPending m.1 (m.1.procs p).pid) hcl.pending hcl.pendingCount,
      events_cancelPending] at hev
    simpa using (List.mem_filter.mp hev).2

/-! ## Runs -/

/-- What is true in every state of a run in which every process ends cleanly. -/
structure CleanEnds (m : Kernel × Phase) : Prop where
  graph : MachineGraph m
  buffer : m.1.sensorBuf.Inv
  withdrawn : ∀ x, m.1.IsTerminated x → Withdrawn m.1 x

theorem cleanEnds_machineStep (h : CleanEnds m) (hc : EndsClean m) : CleanEnds (machineStep m) := by
  refine ⟨machineGraph_machineStep h.graph, bufferInv_machineStep h.graph.tables h.buffer, ?_⟩
  rintro x ⟨p, hp, hterm, rfl⟩
  have hs := tableStep h.graph.tables
  rw [hs.pid]
  rcases (hs.terminated p).mp hterm with hterm | he
  · have hx : m.1.IsTerminated (m.1.procs p).pid := ⟨p, hs.procCount ▸ hp, hterm, rfl⟩
    exact (h.withdrawn _ hx).machineStep h.graph h.buffer hc hx
  · exact withdrawn_of_endingAt h.graph h.buffer hc he

theorem cleanEnds_kernelInit (k₀ : Kernel) (cfg : KernelConfig) {w : List ProcessSpec}
    (hw : ValidWorkload w) : CleanEnds (kernelInit k₀ cfg w, .top) := by
  have hl := loading_kernelInit k₀ cfg hw
  refine ⟨machineGraph_kernelInit k₀ cfg hw, sensorBuf_kernelInit k₀ cfg w ▸ inv_bufferInit, ?_⟩
  rintro x ⟨p, hp, hterm, -⟩
  exact absurd hterm (hl.alive p (hl.procCount ▸ hp))

/-- Nothing names a terminated process, and nobody waits for it, in every state of a run in
which every process ends cleanly. -/
theorem terminated_process_withdrawn (k₀ : Kernel) (cfg : KernelConfig) {w : List ProcessSpec}
    (hw : ValidWorkload w) {run : ℕ → Kernel × Phase} (hrun : run = machineRun (kernelInit k₀ cfg w))
    {n : ℕ} (hc : ∀ m < n, EndsClean (run m)) {p : ℕ} (hp : p < (run n).1.procCount)
    (hterm : ((run n).1.procs p).state = .terminated) :
    Withdrawn (run n).1 ((run n).1.procs p).pid ∧
      ∀ q, ¬WaitsOn (run n).1.graph q ((run n).1.procs p).pid := by
  subst hrun
  have hinv : CleanEnds (machineRun (kernelInit k₀ cfg w) n) :=
    Machine.invariant (fun _ h hc => cleanEnds_machineStep h hc) hc (cleanEnds_kernelInit k₀ cfg hw)
  have h := hinv.withdrawn _ ⟨p, hp, hterm, rfl⟩
  refine ⟨h, ?_⟩
  rintro q ⟨-, -, r, -, ha⟩
  rw [h.graph.allocation r] at ha
  exact lt_irrefl 0 ha

/-- Processes `0` and `1` wait for each other. -/
def crossedWorkload : List ProcessSpec :=
  [⟨1, [], .high, [], 0, 0, [⟨0, [.acquireResource, .compute, .compute, .compute], 9⟩]⟩,
    ⟨0, [], .low, [], 0, 0, [⟨1, [.acquireResource], 9⟩]⟩]

/-- The victim of the first search for a deadlock is withdrawn. -/
theorem terminated_process_withdrawn_victim :
    let run := machineRun (kernelInit .zero ⟨.rr, 0, true, false⟩ crossedWorkload)
    ((run 165).1.procs 1).state = .terminated ∧ Withdrawn (run 165).1 0 := by
  intro run
  have hw : ValidWorkload crossedWorkload := by decide
  have hends : ∀ m < 165, endingAt (run m) = faultedAt (run m) := by decide +kernel
  have halive : ∀ m < 165, (run m).1.procCount = 2 ∧
      ∀ p < 2, ((run m).1.procs p).state ≠ .terminated := by decide +kernel
  have hnone : ∀ m < 165, ∀ x, ¬(run m).1.IsTerminated x := fun m hm x ⟨p, hp, hterm, _⟩ =>
    (halive m hm).2 p ((halive m hm).1 ▸ hp) hterm
  have hc : ∀ m < 165, EndsClean (run m) := fun m hm =>
    ⟨fun p he hf => absurd ((hends m hm).symm.trans he) (ne_of_eq_of_ne hf (Option.some_ne_none p).symm),
      fun _ _ _ hx => absurd hx (hnone m hm _), fun _ _ hx => absurd hx (hnone m hm _),
      fun _ _ _ _ e _ => hnone m hm e.pid⟩
  have hp : 1 < (run 165).1.procCount := by decide +kernel
  have hterm : ((run 165).1.procs 1).state = .terminated := by decide +kernel
  have hpid : ((run 165).1.procs 1).pid = 0 := by decide +kernel
  have hrun : run = machineRun (kernelInit .zero ⟨.rr, 0, true, false⟩ crossedWorkload) := rfl
  clear_value run
  have h := terminated_process_withdrawn .zero ⟨.rr, 0, true, false⟩ hw hrun hc hp hterm
  exact ⟨hterm, hpid ▸ h.1⟩

/-- Two processes that ask for the same resource; the first of them ends with it. -/
def keptWorkload : List ProcessSpec :=
  [⟨2, [], .normal, [], 0, 0, [⟨0, [.acquireResource], 1⟩]⟩,
    ⟨3, [], .normal, [], 0, 0, [⟨1, [.acquireResource], 1⟩]⟩]

/-- At the start of tick `2` process `2` is terminated, and process `3` waits for the resource
that it still holds. -/
theorem terminated_process_keeps_resource :
    let run := machineRun (kernelInit .zero ⟨.rr, 0, true, false⟩ keptWorkload)
    ValidWorkload keptWorkload ∧ (run 32).2 = .top ∧ (run 32).1.currentTick = 2 ∧
      ((run 32).1.procs 0).state = .terminated ∧ ((run 32).1.procs 0).pid = 2 ∧
      (run 32).1.graph.allocation 2 resourceCommChannel = 1 ∧ WaitsOn (run 32).1.graph 3 2 := by
  refine ⟨by decide, ?_⟩
  refine ⟨by decide +kernel, by decide +kernel, by decide +kernel, by decide +kernel,
    by decide +kernel, by decide +kernel, by decide +kernel, resourceCommChannel,
    by decide +kernel, by decide +kernel⟩

end FleetOS
