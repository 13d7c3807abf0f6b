import FleetOS.Phases
import FleetOS.Runs

/-!
# Steps of the machine

`Part` lists everything a part of a tick can do to the threads and the tables, and
`part_machineStep` says that every step is one of these. So what all parts keep is read off from
`Part` : the tables (`tables_machineStep`), their sizes and ids, and the terminated processes but
for the one that ends (`tableStep`).

`quiet_machineStep` : most parts leave the graph, the buffer, the frames and the events alone.
-/

namespace FleetOS

open Scheduler (Frame Enqueue Ended)

/-- The tables, and the thread that has just executed. -/
structure MachineTables (m : Kernel × Phase) : Prop where
  tables : Tables m.1
  retiring : ∀ t, m.2 = .retire t → t < m.1.threadCount

/-! ## Who acts -/

/-- The process that this part of a tick ends. -/
def endingAt : Kernel × Phase → Option ℕ
  | (k, .retire t) => endingProcess k t
  | (k, .detect) => deadlockVictim k
  | (k, .crash) => crashedProcess k
  | _ => none

/-- The process that falls victim to a deadlock or crashes in this part of a tick. -/
def faultedAt : Kernel × Phase → Option ℕ
  | (k, .detect) => deadlockVictim k
  | (k, .crash) => crashedProcess k
  | _ => none

theorem endingAt_of_faultedAt {m : Kernel × Phase} {p : ℕ} (h : faultedAt m = some p) :
    endingAt m = some p := by
  obtain ⟨k, ph⟩ := m
  cases ph <;> first | exact h | cases h

/-- The ids that this part of a tick takes out of the wait queues of the buffer. -/
def takenIds : Kernel × Phase → List ℤ
  | (k, .execute) => (k.runningThread.map (executeWakes k)).getD []
  | (k, .wakeWaiters) => bufferWakes k.sensorBuf
  | _ => []

/-- The part of a tick that completes the events for a reason. -/
def CompletesFor (ph : Phase) (reason : BlockReason) : Prop :=
  ph = .ioEvents ∧ reason = .ioBlock ∨ ph = .pageFaults ∧ reason = .pageFault

/-- Why a blocked thread is woken. -/
inductive Woken (m : Kernel × Phase) (t : ℕ) : Prop
  | taken (h : t ∈ resolvedBy m.1 (takenIds m))
  | due (reason : BlockReason) (hp : CompletesFor m.2 reason) (i : ℕ) (hi : i < m.1.pendingCount)
      (ha : m.1.Awaits reason i t)
  | served (hf : faultedAt m ≠ none) (hb : (m.1.tcb t).state = .blocked)
      (hr : (m.1.tcb t).waitReason = .resourceWait)

theorem Woken.blocked {m : Kernel × Phase} {t : ℕ} (h : Woken m t) :
    (m.1.tcb t).state = .blocked := by
  cases h with
  | taken h => exact h.2
  | due reason hp i hi ha => exact ha.blocked
  | served hf hb hr => exact hb

/-- Why the running thread blocks. -/
def BlocksFor : Kernel × Phase → ℕ → BlockReason → Prop
  | (k, .execute), t, reason =>
    threadCurrentCommand (k.tcb t) ≠ .compute ∧ reason = (threadCurrentCommand (k.tcb t)).blockReason
  | (_, .pageFault), _, reason => reason = .pageFault
  | _, _, _ => False

/-! ## What a part can do -/

/-- What a part of a tick does, from `m` to `k'`. -/
inductive Part (m : Kernel × Phase) (k' : Kernel) : Prop
  | idle (he : endingAt m = none) (hc : Calm m.1 k')
      (hf : Frame m.1.sched k'.sched m.1.threadCount ∅)
  | arrived (he : endingAt m = none) (ha : Arrived m.1 k')
  | woken (he : endingAt m = none) (hc : Calm m.1 k') (s : Set ℕ)
      (hq : Enqueue m.1.sched k'.sched m.1.threadCount s) (hw : ∀ t ∈ s, Woken m t)
  | continued (he : endingAt m = none) (hc : Calm m.1 k') (t : ℕ)
      (hrun : m.1.runningThread = some t) (hx : Continued m.1 k' t (takenIds m))
  | blocked (he : endingAt m = none) (hc : Calm m.1 k') (t : ℕ) (reason : BlockReason)
      (hrun : m.1.runningThread = some t) (hr : BlocksFor m t reason)
      (hx : Blocked m.1 k' t reason)
  | retired (he : endingAt m = none) (hc : Calm m.1 k') (t : ℕ)
      (hrun : (m.1.tcb t).state = .running) (hf : Frame m.1.sched k'.sched m.1.threadCount {t})
      (hp : k'.sched.Parked t) (hd : (k'.tcb t).state = .done)
  /-- Thread `t` retires, and its process `p` ends with it. -/
  | ended (p : ℕ) (he : endingAt m = some p) (hp : p < m.1.procCount) (hc : CleanedUp m.1 k' p)
      (hg : k'.graph = m.1.graph) (t : ℕ) (hrun : (m.1.tcb t).state = .running)
      (ho : t ∈ m.1.owned (m.1.procs p).pid) (s : Scheduler)
      (hf : Frame m.1.sched s m.1.threadCount {t}) (hpark : s.Parked t)
      (hdone : ∀ u ∈ m.1.owned (m.1.procs p).pid, (s.tcb u).state = .done)
      (hend : Ended s k'.sched m.1.threadCount (m.1.owned (m.1.procs p).pid))
  | faulted (p : ℕ) (he : faultedAt m = some p) (hf : Faulted m.1 k' p)
  | ticked (hp : m.2 = .finish) (hk : k' = { m.1 with currentTick := m.1.currentTick + 1 })

variable {m : Kernel × Phase} {k' : Kernel}

theorem CompletedAll.part {reason : BlockReason} (h : Tables m.1) (he : endingAt m = none)
    (hp : CompletesFor m.2 reason)
    (hc : CompletedAll reason (List.range m.1.pendingCount) m.1 k') : Part m k' :=
  .woken he hc.calm _ (hc.threads h.disciplined) fun _ ⟨i, hi, ha⟩ =>
    .due reason hp i (List.mem_range.mp hi) ha

theorem part_executeCommand {k : Kernel} (h : Tables k) {t : ℕ} (hrun : k.runningThread = some t) :
    Part (k, .execute) (executeCommand k t) := by
  have hc := calm_executeCommand k t
  have htaken : takenIds (k, .execute) = executeWakes k t := by
    simp only [takenIds, hrun, Option.map_some, Option.getD_some]
  rcases executeCommand_cases h hrun with hx | ⟨-, hcmd, hx⟩
  · exact .continued rfl hc t hrun (htaken.symm ▸ hx)
  · exact .blocked rfl hc t _ hrun ⟨hcmd, rfl⟩ hx

theorem part_retire {k : Kernel} (h : Tables k) {t : ℕ} (ht : t < k.threadCount) :
    Part (k, .retire t) (retire k t) := by
  rcases retire_cases h t with
    ⟨hx, he⟩ | ⟨hrun, s, hf, hpark, hdone, ⟨he, hx⟩ | ⟨p, he, hp, hpid, hall, hc, hg, hend⟩⟩
  · rw [hx]
    exact .idle he (.refl k) (.refl h.disciplined)
  · rw [hx]
    exact .retired he (.of_rest rfl) t hrun hf hpark hdone
  · exact .ended p he hp hc hg t hrun ⟨ht, hpid.symm⟩ s hf hpark hall hend

theorem part_machineStep (h : MachineTables m) : Part m (machineStep m).1 := by
  obtain ⟨k, ph⟩ := m
  have ht : Tables k := h.tables
  have hsame : ∀ {ph : Phase} {k' : Kernel}, endingAt (k, ph) = none → Calm k k' →
      k'.sched = k.sched → Part (k, ph) k' :=
    fun he hc hs => .idle he hc (hs.symm ▸ Frame.refl ht.disciplined)
  cases ph with
  | top =>
    simp only [machineStep]
    split_ifs
    · exact hsame rfl (.refl k) rfl
    · exact hsame rfl (.of_rest rfl) rfl
  | arrivals => exact .arrived rfl (arrived_checkArrivals ht)
  | ioEvents => exact (completed_completeIoEvents k).part ht rfl (Or.inl ⟨rfl, rfl⟩)
  | pageFaults => exact (completed_completePageFaults k).part ht rfl (Or.inr ⟨rfl, rfl⟩)
  | compact => exact hsame rfl (.of_rest rfl) rfl
  | dispatch =>
    simp only [machineStep, ensureRunning]
    split_ifs
    · exact hsame rfl (.refl k) rfl
    · exact .idle rfl (.of_rest rfl) (Scheduler.frame_schedulerNext ht.disciplined)
  | execute =>
    simp only [machineStep]
    split
    · exact hsame rfl (.refl k) rfl
    · exact part_executeCommand ht ‹_›
  | retire t => exact part_retire ht (h.retiring t rfl)
  | detect =>
    cases hv : deadlockVictim k with
    | none =>
      simp only [machineStep, detectDeadlock, hv]
      exact hsame hv (.refl k) rfl
    | some p => exact .faulted p hv (faulted_detectDeadlock ht hv)
  | crash =>
    cases hc : crashedProcess k with
    | none =>
      simp only [machineStep, injectCrash, hc]
      exact hsame hc (.refl k) rfl
    | some p => exact .faulted p hc (faulted_injectCrash ht hc)
  | pageFault =>
    rcases triggerPageFault_threads ht with hs | ⟨t, hrun, hx⟩
    · exact hsame rfl (calm_triggerPageFault k) hs
    · exact .blocked rfl (calm_triggerPageFault k) t .pageFault hrun rfl hx
  | schedTick =>
    exact .idle rfl (.of_rest rfl) (Scheduler.frame_schedulerTick ht.disciplined k.currentTick)
  | waitTime => exact hsame rfl (calm_trackWaitTime k) rfl
  | snapshot => exact hsame rfl (steady_snapshotSync k).calm (sched_snapshotSync k)
  | wakeWaiters =>
    have hd := drained_wakeBufferWaiters k
    exact .woken rfl hd.calm _ (hd.threads ht.disciplined rfl) fun t htw => .taken htw
  | finish =>
    simp only [machineStep]
    split_ifs
    · exact hsame rfl (.refl k) rfl
    · exact .ticked rfl rfl
  | halted => exact hsame rfl (.refl k) rfl

/-- A process ends with its last thread, as the victim of a deadlock, or by a crash. -/
theorem cleanedUp_machineStep (h : MachineTables m) {p : ℕ} (he : endingAt m = some p) :
    p < m.1.procCount ∧ CleanedUp m.1 (machineStep m).1 p ∧
      ∀ t ∈ m.1.owned (m.1.procs p).pid, ((machineStep m).1.tcb t).state = .done := by
  have hno : endingAt m ≠ none := ne_of_eq_of_ne he (Option.some_ne_none p)
  cases part_machineStep h with
  | ended q hq hlt hc _ _ _ _ _ _ _ _ hend =>
    obtain rfl : q = p := Option.some.inj (hq.symm.trans he)
    exact ⟨hlt, hc, hend.done⟩
  | faulted q hq hf =>
    obtain rfl : q = p := Option.some.inj ((endingAt_of_faultedAt hq).symm.trans he)
    exact ⟨hf.lt, hf.cleaned, fun t ht => hf.threads.choose_spec.2.done t ht⟩
  | ticked hp _ =>
    obtain ⟨k, ph⟩ := m
    obtain rfl : ph = .finish := hp
    cases he
  | idle he' _ _ => exact absurd he' hno
  | arrived he' _ => exact absurd he' hno
  | woken he' _ _ _ _ => exact absurd he' hno
  | continued he' _ _ _ _ => exact absurd he' hno
  | blocked he' _ _ _ _ _ _ => exact absurd he' hno
  | retired he' _ _ _ _ _ _ => exact absurd he' hno

/-! ## The tables -/

theorem tables_machineStep (h : MachineTables m) : MachineTables (machineStep m) := by
  have ht := h.tables
  have hstate : ∀ {t u : ℕ}, (m.1.tcb t).state = .running → u ∈ ({t} : Set ℕ) →
      (m.1.tcb u).state ≠ .ready :=
    fun hrun hu => ne_of_eq_of_ne (Set.mem_singleton_iff.mp hu ▸ hrun) (by decide)
  refine ⟨?_, fun t hp => ?_⟩
  · cases part_machineStep h with
    | idle _ hc hf => exact ht.idle hc hf
    | arrived _ ha => exact ha.tables
    | woken _ hc s hq hw =>
      exact ht.calm hc hq.frame fun t hts _ => ne_of_eq_of_ne (hw t hts).blocked (by decide)
    | continued _ hc t hrun hx =>
      refine ht.calm hc hx.frame ?_
      rintro u (hu | hu) -
      · exact hstate (runningThread_some hrun).2 hu
      · exact ne_of_eq_of_ne hu.2 (by decide)
    | blocked _ hc t reason hrun _ hx =>
      exact ht.calm hc hx.frame fun u hu _ => hstate (runningThread_some hrun).2 hu
    | retired _ hc t hrun hf _ _ => exact ht.calm hc hf fun u hu _ => hstate hrun hu
    | ended p _ hp hc _ t _ ho s hf _ _ hend =>
      refine ht.ended hp hc ((hf.mono Set.subset_union_left).trans
        (hend.frame.mono Set.subset_union_right)) ?_
      rintro u (hu | hu) -
      · exact Or.inr (Set.mem_singleton_iff.mp hu ▸ ho.2)
      · exact Or.inr hu.2
    | faulted p _ hf => exact hf.tables ht
    | ticked _ hk =>
      rw [hk]
      exact ⟨ht.disciplined, ht.pids, ht.pid_range, ht.tids, ht.owner, ht.fresh⟩
  · obtain ⟨k, ph⟩ := m
    cases ph with
    | execute =>
      cases hrun : k.runningThread with
      | none =>
        simp only [machineStep, hrun] at hp
        cases hp
      | some r =>
        simp only [machineStep, hrun] at hp ⊢
        cases hp
        exact (calm_executeCommand k t).threadCount.symm ▸ ht.running_lt hrun
    | top =>
      simp only [machineStep] at hp
      split_ifs at hp
    | finish =>
      simp only [machineStep] at hp
      split_ifs at hp
    | _ => cases hp

/-- What a step leaves of the two tables : a process is terminated exactly where it ends. -/
structure TableStep (m m' : Kernel × Phase) : Prop where
  threadCount : m'.1.threadCount = m.1.threadCount
  procCount : m'.1.procCount = m.1.procCount
  config : m'.1.config = m.1.config
  currentTick : m.2 ≠ .finish → m'.1.currentTick = m.1.currentTick
  pid : ∀ p, (m'.1.procs p).pid = (m.1.procs p).pid
  ident : ∀ u, (m'.1.tcb u).ident = (m.1.tcb u).ident
  terminated : ∀ p, (m'.1.procs p).state = .terminated ↔
    (m.1.procs p).state = .terminated ∨ endingAt m = some p

theorem TableStep.of_calm {m m' : Kernel × Phase} (hc : Calm m.1 m'.1) {n : ℕ} {touched : Set ℕ}
    (hf : Frame m.1.sched m'.1.sched n touched) (he : endingAt m = none) : TableStep m m' := by
  refine ⟨hc.threadCount, hc.procCount, hc.config, fun _ => hc.currentTick, hc.pid, hf.ident,
    fun p => ?_⟩
  rw [hc.terminated, he, or_iff_left (Option.some_ne_none p).symm]

theorem TableStep.of_cleanedUp {m m' : Kernel × Phase} {p : ℕ} (hc : CleanedUp m.1 m'.1 p) {n : ℕ}
    {touched : Set ℕ} (hf : Frame m.1.sched m'.1.sched n touched) (he : endingAt m = some p) :
    TableStep m m' := by
  refine ⟨hc.threadCount, hc.procCount, hc.config, fun _ => hc.currentTick, hc.pid, hf.ident,
    fun q => ?_⟩
  rw [hc.terminated, he, Option.some.injEq, eq_comm (a := p)]

theorem tableStep (h : MachineTables m) : TableStep m (machineStep m) := by
  cases part_machineStep h with
  | idle he hc hf => exact .of_calm hc hf he
  | arrived he ha =>
    obtain ⟨woken, hq, -⟩ := ha.threads
    refine ⟨ha.threadCount, ha.procCount, ?_, fun _ => ?_, ha.pid, hq.frame.ident, fun p => ?_⟩
    · rw [ha.rest]
    · rw [ha.rest]
    · rw [ha.terminated, he, or_iff_left (Option.some_ne_none p).symm]
  | woken he hc s hq _ => exact .of_calm hc hq.frame he
  | continued he hc t _ hx => exact .of_calm hc hx.frame he
  | blocked he hc t reason _ _ hx => exact .of_calm hc hx.frame he
  | retired he hc t _ hf _ _ => exact .of_calm hc hf he
  | ended p he _ hc _ t _ _ s hf _ _ hend =>
    exact .of_cleanedUp hc ((hf.mono Set.subset_union_left).trans
      (hend.frame.mono Set.subset_union_right)) he
  | faulted p he hf =>
    obtain ⟨s, hq, hend⟩ := hf.threads
    exact .of_cleanedUp hf.cleaned ((hq.frame.mono Set.subset_union_left).trans
      (hend.frame.mono Set.subset_union_right)) (endingAt_of_faultedAt he)
  | ticked hp hk =>
    obtain ⟨k, ph⟩ := m
    obtain rfl : ph = .finish := hp
    refine ⟨?_, ?_, ?_, fun hp => absurd rfl hp, fun p => ?_, fun u => ?_, fun p => ?_⟩ <;> rw [hk]
    · rfl
    · exact (or_iff_left (Option.some_ne_none p).symm).symm

/-! ## The quiet parts -/

/-- What the quiet parts of a tick keep. -/
structure Quiet (k k' : Kernel) : Prop where
  graph : k'.graph = k.graph
  sensorBuf : k'.sensorBuf = k.sensorBuf
  frames : k'.mem.frames = k.mem.frames
  pending : k'.pending = k.pending
  pendingCount : k'.pendingCount = k.pendingCount

theorem Quiet.refl (k : Kernel) : Quiet k k := ⟨rfl, rfl, rfl, rfl, rfl⟩

theorem Quiet.trans {k k' k'' : Kernel} (h : Quiet k k') (h' : Quiet k' k'') : Quiet k k'' :=
  ⟨h'.graph.trans h.graph, h'.sensorBuf.trans h.sensorBuf, h'.frames.trans h.frames,
    h'.pending.trans h.pending, h'.pendingCount.trans h.pendingCount⟩

theorem Steady.quiet {k k' : Kernel} (h : Steady k k') : Quiet k k' :=
  ⟨h.graph, h.sensorBuf, congrArg PhysicalMemory.frames h.mem, h.pending, h.pendingCount⟩

/-- Where a thread executes or faults, or events or waiters are looked at. -/
def Phase.busy : Phase → Bool
  | .ioEvents | .pageFaults | .compact | .execute | .pageFault | .wakeWaiters => true
  | _ => false

/-- The other parts are quiet, unless a process ends. -/
theorem quiet_machineStep {m : Kernel × Phase} (h : MachineTables m) (he : endingAt m = none)
    (hb : m.2.busy = false) : Quiet m.1 (machineStep m).1 := by
  obtain ⟨k, ph⟩ := m
  cases ph with
  | top =>
    simp only [machineStep]
    split_ifs <;> exact ⟨rfl, rfl, rfl, rfl, rfl⟩
  | arrivals =>
    have hr := (arrived_checkArrivals h.tables).rest
    simp only [machineStep]
    rw [hr]
    exact ⟨rfl, rfl, rfl, rfl, rfl⟩
  | dispatch =>
    simp only [machineStep, ensureRunning]
    split_ifs <;> exact ⟨rfl, rfl, rfl, rfl, rfl⟩
  | retire t =>
    have hend : endingProcess k t = none := he
    rcases retire_cases h.tables t with
      ⟨hx, -⟩ | ⟨-, s, -, -, -, ⟨-, hx⟩ | ⟨p, hp, -, -, -, -, -, -⟩⟩
    · rw [machineStep, hx]
      exact .refl k
    · rw [machineStep, hx]
      exact ⟨rfl, rfl, rfl, rfl, rfl⟩
    · rw [hend] at hp
      cases hp
  | detect =>
    have hv : deadlockVictim k = none := he
    simp only [machineStep, detectDeadlock, hv]
    exact .refl k
  | crash =>
    have hc : crashedProcess k = none := he
    simp only [machineStep, injectCrash, hc]
    exact .refl k
  | schedTick => exact ⟨rfl, rfl, rfl, rfl, rfl⟩
  | waitTime => exact ⟨rfl, rfl, rfl, rfl, rfl⟩
  | snapshot => exact (steady_snapshotSync k).quiet
  | finish =>
    simp only [machineStep]
    split_ifs <;> exact ⟨rfl, rfl, rfl, rfl, rfl⟩
  | halted => exact .refl k
  | _ => cases hb

/-! ## Runs -/

/-- The tables are right in every state of a run. -/
theorem tables_machineRun (k₀ : Kernel) (cfg : KernelConfig) {w : List ProcessSpec}
    (hw : ValidWorkload w) (n : ℕ) : MachineTables (machineRun (kernelInit k₀ cfg w) n) :=
  Machine.invariant (P := fun _ => True) (fun _ h _ => tables_machineStep h) (fun _ _ => trivial)
    ⟨tables_kernelInit k₀ cfg hw, fun t h => by cases h⟩

theorem config_machineRun (k₀ : Kernel) (cfg : KernelConfig) {w : List ProcessSpec}
    (hw : ValidWorkload w) (n : ℕ) : (machineRun (kernelInit k₀ cfg w) n).1.config = cfg := by
  induction n with
  | zero => exact config_kernelInit k₀ cfg w
  | succ n ih =>
    rw [machineRun, Function.iterate_succ_apply']
    exact (tableStep (tables_machineRun k₀ cfg hw n)).config.trans ih

end FleetOS
