import FleetOS.MachineSteps
import FleetOS.QueueOrder
import FleetOS.WakeRelations

/-!
# Ticks without disturbance

In round robin mode, while all processes have arrived and go on and nobody asks for the buffer or
for a resource (`Undisturbed`), the parts of a tick after its command leave the threads, the queue
and the events alone : `rest_of_tick` and `start_of_tick` lead from one to the other. A thread that
blocks hands the processor to the first of the queue (`schedulerBlock_front`), and threads that are
woken are queued behind the others (`WakesBehind`).
-/

namespace FleetOS

open Scheduler (Grows)

variable {k k' : Kernel} {c h n : ℕ}

/-! ## The rest of a tick -/

/-- What a thread that only writes depends on stays. -/
structure Still (k k' : Kernel) : Prop where
  quiet : Quiet k k'
  tcb : k'.sched.tcb = k.sched.tcb
  rr : k'.sched.rr = k.sched.rr
  mlfq : k'.sched.mlfq = k.sched.mlfq
  current : k'.sched.currentThread = k.sched.currentThread
  mode : k'.sched.schedMode = k.sched.schedMode
  currentQueue : k'.sched.currentQueue = k.sched.currentQueue
  config : k'.config = k.config
  threadCount : k'.threadCount = k.threadCount
  procCount : k'.procCount = k.procCount
  new : ∀ p, (k'.procs p).state = .new ↔ (k.procs p).state = .new
  terminated : ∀ p, (k'.procs p).state = .terminated ↔ (k.procs p).state = .terminated

theorem Still.trans {k'' : Kernel} (h : Still k k') (h' : Still k' k'') : Still k k'' :=
  ⟨h.quiet.trans h'.quiet, h'.tcb.trans h.tcb, h'.rr.trans h.rr, h'.mlfq.trans h.mlfq,
    h'.current.trans h.current, h'.mode.trans h.mode, h'.currentQueue.trans h.currentQueue,
    h'.config.trans h.config, h'.threadCount.trans h.threadCount, h'.procCount.trans h.procCount,
    fun p => (h'.new p).trans (h.new p), fun p => (h'.terminated p).trans (h.terminated p)⟩

/-- Nothing is asked of the graph or the buffer, and all processes have arrived and go on. -/
structure Undisturbed (k : Kernel) : Prop where
  config : k.config = ⟨.rr, 0, true, false⟩
  mode : k.sched.schedMode = .rr
  graph : deadlockDetect k.graph = none
  sensorBuf : k.sensorBuf = bufferInit
  arrived : ∀ p < k.procCount, (k.procs p).state ≠ .new
  alive : ∃ p < k.procCount, (k.procs p).state ≠ .terminated

theorem Undisturbed.congr (hu : Undisturbed k) (hcfg : k'.config = k.config)
    (hmode : k'.sched.schedMode = .rr) (hgraph : k'.graph = k.graph)
    (hbuf : k'.sensorBuf = k.sensorBuf) (hcount : k'.procCount = k.procCount)
    (hnew : ∀ p, (k'.procs p).state = .new ↔ (k.procs p).state = .new)
    (hterm : ∀ p, (k'.procs p).state = .terminated ↔ (k.procs p).state = .terminated) :
    Undisturbed k' := by
  refine ⟨hcfg.trans hu.config, hmode, ?_, hbuf.trans hu.sensorBuf, fun p hp h => ?_, ?_⟩
  · rw [hgraph]
    exact hu.graph
  · exact hu.arrived p (hcount ▸ hp) ((hnew p).mp h)
  · obtain ⟨p, hp, hne⟩ := hu.alive
    exact ⟨p, hcount.symm ▸ hp, fun h => hne ((hterm p).mp h)⟩

theorem Undisturbed.of_still (hu : Undisturbed k) (hs : Still k k') : Undisturbed k' :=
  hu.congr hs.config (hs.mode.trans hu.mode) hs.quiet.graph hs.quiet.sensorBuf hs.procCount hs.new
    hs.terminated

theorem Undisturbed.of_calm (hu : Undisturbed k) (hc : Calm k k') (hmode : k'.sched.schedMode = .rr)
    (hgraph : k'.graph = k.graph) (hbuf : k'.sensorBuf = k.sensorBuf) : Undisturbed k' :=
  hu.congr hc.config hmode hgraph hbuf hc.procCount hc.new hc.terminated

theorem wakeBufferWaiters_bufferInit (hb : k.sensorBuf = bufferInit) : wakeBufferWaiters k = k := by
  obtain ⟨config, currentTick, procs, procCount, sched, threadCount, pending, pendingCount, sensorBuf,
    ioSeq, mem, fs, graph, deadlockPhase⟩ := k
  obtain rfl : sensorBuf = bufferInit := hb
  rfl

/-- From the retirement of a thread that is not running to the end of the tick. -/
theorem rest_of_tick (hu : Undisturbed k) (hc : (k.tcb c).state ≠ .running)
    (hcur : k.sched.currentThread = some h) (hq : k.sched.quantumRemaining = 4) :
    ∃ k', machineStep^[9] (k, .retire c) = (k', .top) ∧ Still k k' ∧
      k'.currentTick = k.currentTick + 1 := by
  have hvictim : deadlockVictim k = none := by
    unfold deadlockVictim
    split_ifs
    · rw [hu.graph]
    · rfl
  have h₁ : machineStep (k, .retire c) = (k, .detect) := by
    rw [machineStep, retire, if_neg fun hr => hc hr.1]
  have h₂ : machineStep (k, .detect) = (k, .crash) := by
    rw [machineStep, detectDeadlock, hvictim]
  have h₃ : machineStep (k, .crash) = (k, .pageFault) := by
    rw [machineStep, injectCrash, crashedProcess, hu.config, if_neg fun hr => absurd hr.1 (by decide)]
  have h₄ : machineStep (k, .pageFault) = (k, .schedTick) := by
    rw [machineStep, triggerPageFault, hu.config, if_pos rfl]
  set k₁ : Kernel := { k with sched := { k.sched with quantumRemaining := 3 } } with hk₁
  have h₅ : machineStep (k, .schedTick) = (k₁, .waitTime) := by
    have htick : schedulerTick k.sched k.currentTick = { k.sched with quantumRemaining := 3 } := by
      simp [schedulerTick, hu.mode, chargeQuantum, hcur, hq]
    rw [machineStep, htick]
  set k₂ := trackWaitTime k₁ with hk₂
  set k₃ := snapshotSync k₂ with hk₃
  have hcalm := calm_trackWaitTime k₁
  have hsteady := steady_snapshotSync k₂
  have hs₃ : k₃.sched = k₁.sched := (sched_snapshotSync k₂).trans rfl
  have hstill : Still k k₃ := by
    have hquiet : Quiet k k₃ := ⟨hsteady.graph, hsteady.sensorBuf,
      congrArg PhysicalMemory.frames hsteady.mem, hsteady.pending, hsteady.pendingCount⟩
    refine ⟨hquiet, ?_, ?_, ?_, ?_, ?_, ?_, hsteady.config, hsteady.threadCount,
      hsteady.procCount, fun p => (hsteady.new p).trans (hcalm.new p),
      fun p => (hsteady.terminated p).trans (hcalm.terminated p)⟩ <;> rw [hs₃]
  have hu₃ := hu.of_still hstill
  have h₈ : machineStep (k₃, .wakeWaiters) = (k₃, .finish) := by
    rw [machineStep, wakeBufferWaiters_bufferInit hu₃.sensorBuf]
  have h₉ : machineStep (k₃, .finish) = ({ k₃ with currentTick := k₃.currentTick + 1 }, .top) := by
    have hall : ¬allTerminated k₃ = true := by
      obtain ⟨p, hp, hne⟩ := hu₃.alive
      intro hall
      rw [allTerminated, List.all_eq_true] at hall
      exact hne (of_decide_eq_true (hall p (List.mem_range.mpr hp)))
    rw [machineStep, if_neg hall]
  refine ⟨{ k₃ with currentTick := k₃.currentTick + 1 }, ?_, ?_, ?_⟩
  · change machineStep (machineStep (machineStep (machineStep (machineStep (machineStep (machineStep
      (machineStep (machineStep (k, .retire c))))))))) = _
    rw [h₁, h₂, h₃, h₄, h₅]
    change machineStep (machineStep (k₃, .wakeWaiters)) = _
    rw [h₈, h₉]
  · exact ⟨⟨hstill.quiet.graph, hstill.quiet.sensorBuf, hstill.quiet.frames, hstill.quiet.pending,
      hstill.quiet.pendingCount⟩, hstill.tcb, hstill.rr, hstill.mlfq, hstill.current, hstill.mode,
      hstill.currentQueue, hstill.config, hstill.threadCount, hstill.procCount, hstill.new,
      hstill.terminated⟩
  · change k₃.currentTick + 1 = k.currentTick + 1
    rw [hsteady.currentTick, hcalm.currentTick]

theorem checkArrivals_of_arrived (ha : ∀ p < k.procCount, (k.procs p).state ≠ .new) :
    checkArrivals k = k := by
  refine List.foldlRecOn (motive := fun k' => k' = k) _ _ rfl fun k' hk' p hp => ?_
  rw [hk', arrive, if_neg fun hr => ha p (List.mem_range.mp hp) hr.1]

/-- From the start of a tick to its events. -/
theorem start_of_tick (hu : Undisturbed k) :
    ∃ k', machineStep^[2] (k, .top) = (k', .ioEvents) ∧ Still k k' ∧ k'.currentTick = k.currentTick := by
  set k₁ : Kernel := { k with mem := memSetTick k.mem k.currentTick } with hk₁
  have h₁ : machineStep (k, .top) = (k₁, .arrivals) := by
    have hmax : ¬0 < k.config.maxTicks := by
      rw [hu.config]
      decide
    rw [machineStep, if_neg fun hr => hmax hr.1]
  have h₂ : machineStep (k₁, .arrivals) = (k₁, .ioEvents) := by
    rw [machineStep, checkArrivals_of_arrived (k := k₁) hu.arrived]
  refine ⟨k₁, ?_, ⟨⟨rfl, rfl, rfl, rfl, rfl⟩, rfl, rfl, rfl, rfl, rfl, rfl, rfl, rfl, rfl,
    fun _ => Iff.rfl, fun _ => Iff.rfl⟩, rfl⟩
  change machineStep (machineStep (k, .top)) = _
  rw [h₁, h₂]

/-! ## Waking keeps the order -/

/-- Threads are only queued behind the others, and the scheduler stays settled. -/
structure WakesBehind (k k' : Kernel) : Prop where
  grows : Grows k.sched k'.sched
  threadCount : k'.threadCount = k.threadCount
  settled : k.sched.Settled k.threadCount (Set.Iio k.threadCount) →
    k'.sched.Settled k.threadCount (Set.Iio k.threadCount)

theorem wakesBehind : WakeRelation WakesBehind where
  trans h h' := ⟨h.grows.trans h'.grows, h'.threadCount.trans h.threadCount,
    fun ho => h.threadCount ▸ h'.settled (h.threadCount.symm ▸ h.settled ho)⟩
  same h := ⟨h.sched ▸ .refl _, h.threadCount, fun ho => h.sched.symm ▸ ho⟩
  unblock {k t} ht hb := by
    refine ⟨?_, (steady_unblockThread k t).threadCount, fun ho => ?_⟩ <;> rw [sched_unblockThread]
    · exact (Grows.setTcb _ t _).trans (.schedulerAdd _ t)
    · obtain ⟨hq, hcur⟩ := ho.disciplined.blocked hb
      have hu := ho.unblock ht hq hcur
      rwa [Set.insert_eq_of_mem (Set.mem_Iio.mpr ht)] at hu

theorem wakesBehind_completeIoEvents (k : Kernel) : WakesBehind k (completeIoEvents k) :=
  wakesBehind.foldl (fun k i => wakesBehind.completeIoEvent k i) _ k

theorem completePageFaults_of_none (hd : ∀ i, k.due .pageFault i = false) :
    completePageFaults k = k := by
  refine List.foldlRecOn (motive := fun k' => k' = k) _ _ rfl fun k' hk' i _ => ?_
  rw [hk', completePageFault, hd i]
  rfl

/-! ## The queue -/

/-- The program counter is nothing to the scheduler. -/
theorem settled_advance {s : Scheduler} {added : Set ℕ} (ho : s.Settled n added) (t : ℕ) :
    (s.setTcb t TCB.advance).Settled n added := by
  have hframe := Scheduler.frame_setTcb_of_kernel (t := t) (f := TCB.advance) ho.disciplined rfl rfl rfl
  refine ho.transfer hframe.disciplined.toSound rfl rfl fun u => ?_
  rw [Scheduler.setTcb_tcb]
  split_ifs with hu
  · rw [hu]
    rfl
  · rfl

/-- When the current thread blocks, the first of the queue gets its turn. -/
theorem schedulerBlock_front {s : Scheduler} {added : Set ℕ} (ho : s.Settled n added)
    (hm : s.schedMode = .rr) (hcur : s.currentThread = some c) {q : List ℕ}
    (hq : s.rr.toList = h :: q) {s' : Scheduler}
    (hs' : s' = schedulerBlock (s.setTcb c fun x => threadBlock x .ioBlock) c) :
    s'.Settled n added ∧ s'.schedMode = .rr ∧ s'.currentThread = some h ∧
      s'.quantumRemaining = 4 ∧ ∃ back, s'.rr.toList = q ++ back := by
  have hsettled : s'.Settled n added := hs' ▸ ho.block .ioBlock
  obtain ⟨hw, -, -⟩ := Scheduler.withdrawn_blockCurrent ho.toSound hcur
    (ho.current_not_queued hcur) .ioBlock
  obtain ⟨hmode, -, -, hrr, -⟩ :=
    Scheduler.blockCurrent_rest (s.setTcb c fun x => threadBlock x .ioBlock) c
  rw [Scheduler.schedulerBlock_current hcur] at hs'
  set s₁ := Scheduler.blockCurrent (s.setTcb c fun x => threadBlock x .ioBlock) c
  have hmode₁ : s₁.schedMode = .rr := hmode.trans hm
  have hfront : s₁.front.toList = h :: q := by
    rw [Scheduler.front_rr hmode₁, hrr]
    exact hq
  obtain ⟨hmode₂, hcurrent, hquantum, back, hback⟩ := Scheduler.next_front (hw.sound ho.toSound) hfront
  rw [← hs'] at hmode₂ hcurrent hquantum hback
  have hmode' : s'.schedMode = .rr := hmode₂.trans hmode₁
  rw [hmode₁] at hquantum
  rw [Scheduler.front_rr hmode'] at hback
  exact ⟨hsettled, hmode', hcurrent, hquantum, back, hback⟩

end FleetOS
