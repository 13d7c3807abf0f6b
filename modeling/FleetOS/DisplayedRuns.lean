import FleetOS.Gauges
import FleetOS.PagedRuns
import FleetOS.SensorStream
import FleetOS.Snapshots

/-!
# What a run displays

A workload with small numbers (`Moderate`) keeps them small : in every state of a run up to
`lastTick` each number of the tables is a 32-bit integer, each id is in its range and each name and
path is short (`displayable_machineRun`), so nothing overflows and no snapshot is cut.
-/

namespace FleetOS

/-- At most two threads for each process, each with a command, and no negative times. -/
structure Moderate (w : List ProcessSpec) : Prop where
  tid : ∀ id ∈ threadIds w, 0 ≤ id.1 ∧ id.1 < maxThreads
  threads : ∀ p ∈ w, p.threads.length ≤ 2
  commands : ∀ p ∈ w, ∀ s ∈ p.threads, s.commands ≠ []
  bursts : ∀ p ∈ w, ∀ s ∈ p.threads, 0 ≤ s.burst ∧ s.burst < 2 ^ 31
  burst : ∀ p ∈ w, IsInt p.burst
  arrival : ∀ p ∈ w, 0 ≤ p.arrivalTime

/-! ## Threads -/

theorem within_kernelInit (k₀ : Kernel) (cfg : KernelConfig) {w : List ProcessSpec} (hm : Moderate w) :
    ∀ t < (kernelInit k₀ cfg w).threadCount, ((kernelInit k₀ cfg w).tcb t).Within 0 (2 ^ 31 - 1) := by
  refine tcbs_kernelInit (Q := fun c => c.Within 0 (2 ^ 31 - 1)) (fun hp h => h.of_progress hp)
    (fun spec hspec s hs c fresh => ?_) k₀ cfg
  have hpos : 0 < s.commands.length := List.length_pos_iff.mpr (hm.commands spec hspec s hs)
  have hb := hm.bursts spec hspec s hs
  have hc : maxCommands = 32 := rfl
  have hcount : 0 < (bootTcb c s fresh).commandCount ∧
      (bootTcb c s fresh).commandCount ≤ maxCommands := by
    dsimp only [bootTcb, threadCreate]
    split_ifs <;> omega
  exact ⟨hcount, ⟨le_rfl, hcount.1⟩, ⟨hb.1, Int.le_sub_one_of_lt hb.2⟩⟩

theorem within_machineRun (k₀ : Kernel) (cfg : KernelConfig) {w : List ProcessSpec}
    (hw : ValidWorkload w) (hm : Moderate w) (n : ℕ) :
    let m := machineRun (kernelInit k₀ cfg w) n
    ∀ t < m.1.threadCount, (m.1.tcb t).Within (-clock m) (2 ^ 31 - 1) := by
  induction n with
  | zero =>
    intro m t ht
    have hc : clock m = 0 := clock_kernelInit k₀ cfg w
    exact hc ▸ within_kernelInit k₀ cfg hm t ht
  | succ n ih =>
    intro m t ht
    have htab := tables_machineRun k₀ cfg hw n
    have hn : m.1.threadCount = (machineRun (kernelInit k₀ cfg w) n).1.threadCount :=
      (congrArg (fun m => m.1.threadCount) (machineRun_succ _ n)).trans (tableStep htab).threadCount
    change ((machineRun (kernelInit k₀ cfg w) (n + 1)).1.tcb t).Within
      (-clock (machineRun (kernelInit k₀ cfg w) (n + 1))) (2 ^ 31 - 1)
    rw [machineRun_succ]
    exact within_machineStep htab (ih t (hn ▸ ht))

/-- The threads and their owners do not change. -/
theorem ids_machineRun (k₀ : Kernel) (cfg : KernelConfig) {w : List ProcessSpec}
    (hw : ValidWorkload w) (n : ℕ) : (machineRun (kernelInit k₀ cfg w) n).1.ids = threadIds w := by
  induction n with
  | zero => exact (loading_kernelInit k₀ cfg hw).ids_eq
  | succ n ih =>
    have hs := tableStep (tables_machineRun k₀ cfg hw n)
    rw [machineRun_succ, ← ih, Kernel.ids, Kernel.ids, hs.threadCount]
    refine List.map_congr_left fun t _ => ?_
    have hi := hs.ident t
    simp only [TCB.ident, Prod.mk.injEq] at hi
    rw [hi.1, hi.2.1]

/-- Each process has the threads that it was given. -/
theorem countP_threadIds_le {pid : ℤ} : ∀ {w : List ProcessSpec}, (w.map ProcessSpec.pid).Nodup →
    (∀ p ∈ w, p.threads.length ≤ 2) → (threadIds w).countP (fun id => id.2 = pid) ≤ 2
  | [], _, _ => by simp [threadIds]
  | p :: w, hd, hm => by
    rw [List.map_cons, List.nodup_cons] at hd
    have hcons : threadIds (p :: w) = p.threads.map (fun s => (s.tid, p.pid)) ++ threadIds w := rfl
    rw [hcons, List.countP_append, List.countP_map]
    by_cases hp : p.pid = pid
    · -- the threads of the others belong to other processes
      have hnone : (threadIds w).countP (fun id => id.2 = pid) = 0 := by
        refine List.countP_eq_zero.mpr fun id hid => ?_
        simp only [threadIds, List.mem_flatMap, List.mem_map] at hid
        obtain ⟨q, hq, s, -, rfl⟩ := hid
        have hne : q.pid ≠ pid := fun he => hd.1 (List.mem_map.mpr ⟨q, hq, he.trans hp.symm⟩)
        simpa using hne
      rw [hnone]
      exact List.countP_le_length.trans (hm p List.mem_cons_self)
    · have hnone : p.threads.countP ((fun id : ℤ × ℤ => decide (id.2 = pid)) ∘ fun s => (s.tid, p.pid)) = 0 :=
        List.countP_eq_zero.mpr fun s _ => by simpa using hp
      rw [hnone, Nat.zero_add]
      exact countP_threadIds_le hd.2 fun q hq => hm q (List.mem_cons_of_mem _ hq)

/-! ## The tables -/

section tables

variable {m : Kernel × Phase} {w : List ProcessSpec}

theorem clock_range (h0 : 0 ≤ m.1.currentTick) (ht : m.1.currentTick ≤ lastTick) :
    0 ≤ clock m ∧ clock m ≤ 2 ^ 30 := by
  have hc := m.2.counts_range
  have hl : lastTick = 21474836 := rfl
  unfold clock
  constructor <;> omega

theorem tid_range (hids : m.1.ids = threadIds w) (hm : Moderate w) {t : ℕ} (ht : t < m.1.threadCount) :
    0 ≤ (m.1.tcb t).tid ∧ (m.1.tcb t).tid < maxThreads := by
  refine hm.tid ((m.1.tcb t).tid, (m.1.tcb t).ownerPid) (hids ▸ ?_)
  exact List.mem_map.mpr ⟨t, List.mem_range.mpr ht, rfl⟩

theorem length_ownThreads (hids : m.1.ids = threadIds w) (hw : ValidWorkload w) (hm : Moderate w)
    (pid : ℤ) : (m.1.ownThreads pid).length ≤ 2 := by
  have hcount : (m.1.ownThreads pid).length = m.1.ids.countP fun id => id.2 = pid := by
    rw [Kernel.ids, List.countP_map, List.countP_eq_length_filter]
    rfl
  rw [hcount, hids]
  exact countP_threadIds_le hw.pids hm.threads

theorem displayable_tcb {c : TCB} (htid : 0 ≤ c.tid ∧ c.tid < maxThreads) {b : ℤ}
    (h : c.Within (-b) (2 ^ 31 - 1)) (hb : b ≤ 2 ^ 30) : c.Displayable := by
  obtain ⟨hn, hpc, hburst⟩ := h
  have hmax : maxCommands = 32 := rfl
  refine ⟨htid, ⟨?_, ?_⟩, ⟨?_, ?_⟩⟩ <;> omega

theorem displayable_pcb {c : PCB} {spec : ProcessSpec} (hpid : validPid c.pid)
    (hmade : c.made = { spec.create with arrivalTime := spec.arrivalTime }.made)
    (hburst : IsInt spec.burst) (hwait : IsInt c.waitTime) (hdone : IsInt c.completionTick) :
    c.Displayable := by
  have hname : c.made.name = _ := congrArg PCB.name hmade
  have hpc : c.made.programCounter = _ := congrArg PCB.programCounter hmade
  have hb : c.made.burstRemaining = _ := congrArg PCB.burstRemaining hmade
  have hticks : c.made.commandTicksRemaining = _ := congrArg PCB.commandTicksRemaining hmade
  change c.name = spec.create.name at hname
  change c.programCounter = 0 at hpc
  change c.burstRemaining = spec.burst at hb
  change c.commandTicksRemaining = 1 at hticks
  refine ⟨hpid, ?_, ?_, hb ▸ hburst, hwait, ?_, hdone⟩
  · rw [hname]
    simp [ProcessSpec.create, droneSetCommands, pcbCreate]
  · rw [hpc]
    decide
  · rw [hticks]
    decide

/-- The times of a process lie between `-1` and the tick after the present one. -/
theorem Timed.isInt {p : ℕ} (h : Timed m p) (harr : 0 ≤ (m.1.procs p).arrivalTime)
    (ht : m.1.currentTick ≤ lastTick) :
    IsInt (m.1.procs p).waitTime ∧ IsInt (m.1.procs p).completionTick := by
  have hl : lastTick = 21474836 := rfl
  have hcounted : m.2.counted ≤ 1 := by
    cases m.2 <;> simp [Phase.counted]
  have hwait := h.wait_nonneg
  by_cases hend : (m.1.procs p).state = .terminated
  · have := h.ended hend
    refine ⟨⟨?_, ?_⟩, ⟨?_, ?_⟩⟩ <;> omega
  · have hdone := h.unfinished hend
    have hle : (m.1.procs p).waitTime ≤ m.1.currentTick + 1 := by
      have htick := h.tick_nonneg
      by_cases hnew : (m.1.procs p).state = .new
      · have := (h.absent hnew).1
        omega
      · have := (h.waiting hnew hend).1
        omega
    refine ⟨⟨?_, ?_⟩, ⟨?_, ?_⟩⟩ <;> omega

theorem displayable_sched (hd : m.1.sched.Disciplined m.1.threadCount) {c : ℤ}
    (hg : Gauged m.1.sched c) (hc : c ≤ 2 ^ 30) (h : ∀ t < m.1.threadCount, (m.1.tcb t).Displayable) :
    m.1.sched.Displayable := by
  have hempty : ∀ q : ReadyQueue, q.count = 0 → q.toList = [] := fun q hq =>
    List.eq_nil_of_length_eq_zero (q.length_toList.trans hq)
  have hqueue := hd.currentQueue
  refine ⟨fun t ht => h t (hd.current_lt t ht), ?_, ?_, ?_, ?_, ?_⟩
  · have := hg.quantum
    constructor <;> omega
  · constructor <;> omega
  · have := hg.boosts
    constructor <;> omega
  · simp only [List.mem_cons, List.not_mem_nil, or_false]
    rintro q (rfl | rfl | rfl | rfl)
    · exact hd.rr_wf.count_le
    all_goals exact (hd.mlfq_wf _).count_le
  · have hlt := hd.queued_lt
    unfold Scheduler.queued at hlt
    cases hm : m.1.sched.schedMode with
    | rr =>
      simp only [hm, Multiset.mem_coe] at hlt
      simp only [List.mem_cons, List.not_mem_nil, or_false]
      rintro q (rfl | rfl | rfl | rfl) t ht
      · exact h t (hlt t ht)
      all_goals
        rw [hempty _ (hg.mlfq_empty hm _)] at ht
        exact absurd ht List.not_mem_nil
    | mlfq =>
      simp only [hm, Multiset.mem_add, Multiset.mem_coe] at hlt
      simp only [List.mem_cons, List.not_mem_nil, or_false]
      rintro q (rfl | rfl | rfl | rfl) t ht
      · rw [hempty _ (hg.rr_empty hm)] at ht
        exact absurd ht List.not_mem_nil
      · exact h t (hlt t (Or.inl (Or.inl ht)))
      · exact h t (hlt t (Or.inl (Or.inr ht)))
      · exact h t (hlt t (Or.inr ht))

theorem displayable_fs {k : Kernel} {b : ℤ} (h : Logged k b) (hb : b ≤ 2 ^ 30) : k.fs.Displayable := by
  have hf := h.files
  refine ⟨?_, fun i _ hu => ?_, fun i _ hu => ?_⟩
  · rw [hf.directory.count]
    have hused : usedCount k.fs ≤ maxFiles := List.countP_le_length.trans (by simp)
    have hmax : maxFiles = 16 := rfl
    constructor <;> omega
  · refine (hf.path i hu).imp_right ?_
    rintro ⟨pid, seq, hpid, hseq, hp⟩
    refine ⟨pid, seq, hpid, ⟨?_, ?_⟩, hp⟩
    · omega
    · have := h.seq_le
      omega
  · rw [hf.size i hu]
    decide

theorem displayable_sensorBuf {ps cs : List ℤ} (h : Stream m ps cs) (htab : Tables m.1)
    (ht : m.1.currentTick ≤ lastTick) : m.1.sensorBuf.Displayable := by
  have hsize : ringBufferSize = 8 := rfl
  have hcount : m.1.sensorBuf.count ≤ ringBufferSize := h.buf.ring_wf.count_le
  have hout : m.1.sensorBuf.outPos < ringBufferSize := h.buf.ring_wf.head_lt
  have hin : m.1.sensorBuf.inPos < ringBufferSize := by
    rw [h.buf.in_eq]
    exact Nat.mod_lt _ (by decide)
  have howner : m.1.sensorBuf.mutex.ownerPid = -1 := by
    rw [h.buf.mutexFree]
    rfl
  refine ⟨⟨?_, ?_⟩, ⟨?_, ?_⟩, ⟨?_, ?_⟩, howner ▸ by decide, fun i _ => ?_⟩
  iterate 6 omega
  rcases h.slots i with hi | hi
  · rw [hi]
    decide
  · obtain ⟨tick, htick, p, hp, he⟩ := h.sample _ hi
    have hpid : validPid (m.1.procs p).pid := htab.pid_range p hp
    obtain ⟨hpid0, hpid⟩ := hpid
    have hmax : maxProcs = 16 := rfl
    have hl : lastTick = 21474836 := rfl
    have hran := m.2.ran_le
    rw [he]
    constructor <;> omega

end tables

/-- Distinct pids fit into the table. -/
theorem ValidWorkload.length_le {w : List ProcessSpec} (hw : ValidWorkload w) : w.length ≤ maxProcs := by
  have hsub : w.map ProcessSpec.pid ⊆ pidIndices := by
    intro pid hpid
    obtain ⟨p, hp, rfl⟩ := List.mem_map.mp hpid
    exact mem_pidIndices.mpr (hw.pid_range p hp)
  have hle := (List.subperm_of_subset hw.pids hsub).length_le
  rwa [List.length_map, pidIndices, List.length_map, List.length_range] at hle

/-! ## Runs -/

/-- What is true in every state of a run of `w` and bounds what a snapshot shows. -/
structure Measured (w : List ProcessSpec) (m : Kernel × Phase) : Prop where
  tables : MachineTables m
  threads : ∀ t < m.1.threadCount, (m.1.tcb t).Within (-clock m) (2 ^ 31 - 1)
  ids : m.1.ids = threadIds w
  procCount : m.1.procCount = w.length
  made : ∀ p (hp : p < w.length), (m.1.procs p).made =
    { w[p].create with arrivalTime := w[p].arrivalTime }.made
  timed : ∀ p < w.length, Timed m p
  gauged : Gauged m.1.sched (clock m)
  frames : FrameTable m.1
  files : Logged m.1 (m.1.currentTick + m.2.ran)
  samples : ∃ ps cs, Stream m ps cs
  tick_nonneg : 0 ≤ m.1.currentTick

theorem Measured.displayable {m : Kernel × Phase} {w : List ProcessSpec} (h : Measured w m)
    (hw : ValidWorkload w) (hm : Moderate w) (htick : m.1.currentTick ≤ lastTick) : m.1.Displayable := by
  have htables := h.tables.tables
  have hclock := clock_range h.tick_nonneg htick
  have htcb : ∀ t < m.1.threadCount, (m.1.tcb t).Displayable := fun t ht =>
    displayable_tcb (tid_range h.ids hm ht) (h.threads t ht) hclock.2
  obtain ⟨ps, cs, hstream⟩ := h.samples
  refine ⟨h.procCount.trans_le hw.length_le, fun p hp => ?_, fun p _ => length_ownThreads h.ids hw hm _, htcb,
    ?_, fun i hi => ?_, displayable_sched htables.disciplined h.gauged hclock.2 htcb,
    displayable_fs h.files ?_, displayable_sensorBuf hstream htables htick⟩
  · have hpw : p < w.length := h.procCount ▸ hp
    have hmem := List.getElem_mem hpw
    have harr : (m.1.procs p).arrivalTime = w[p].arrivalTime := congrArg PCB.arrivalTime (h.made p hpw)
    obtain ⟨hwait, hdone⟩ := (h.timed p hpw).isInt (harr.symm ▸ hm.arrival _ hmem) htick
    exact displayable_pcb (htables.pid_range p hp) (h.made p hpw) (hm.burst _ hmem) hwait hdone
  · have hle : frameIndices.countP (fun f => m.1.mem.frames f = -1) ≤ frameCount :=
      List.countP_le_length.trans (by decide)
    have hn : frameCount = 16 := rfl
    rw [h.frames.free]
    constructor <;> omega
  · rcases h.frames.owner i hi with he | ⟨p, hp, he⟩
    · rw [he]
      decide
    · obtain ⟨h0, hlt⟩ : validPid (m.1.procs p).pid := htables.pid_range p hp
      have hn : maxProcs = 16 := rfl
      rw [he]
      constructor <;> omega
  · have hran := m.2.ran_le
    have hl : lastTick = 21474836 := rfl
    omega

theorem measured_machineRun (k₀ : Kernel) (cfg : KernelConfig) {w : List ProcessSpec}
    (hw : ValidWorkload w) (hm : Moderate w) (n : ℕ) :
    Measured w (machineRun (kernelInit k₀ cfg w) n) where
  tables := tables_machineRun k₀ cfg hw n
  threads := within_machineRun k₀ cfg hw hm n
  ids := ids_machineRun k₀ cfg hw n
  procCount := (threadsOf_machineRun k₀ cfg hw 0 n).2
  made _ hp := made_machineRun k₀ cfg hp n
  timed := timed_machineRun k₀ cfg hw n
  gauged := gauged_machineRun k₀ cfg hw n
  frames := frameTable_machineRun k₀ cfg hw n
  files := logged_machineRun k₀ cfg hw n
  samples := ⟨_, _, stream_machineRun k₀ cfg hw n⟩
  tick_nonneg := currentTick_nonneg k₀ cfg hw n

theorem moderate_droneWorkload : Moderate droneWorkload :=
  ⟨by decide, by decide, by decide, by decide, by decide, by decide⟩

end FleetOS
