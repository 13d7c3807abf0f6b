import FleetOS.ProcessStates

/-!
# Wait times

A tick counts the processes as waiting whose PCB says `READY`, after the threads have been
dispatched, preempted and ended in it. The PCB of a process was brought up to date at its arrival,
where a thread of it last blocked or was woken, or for the snapshot of every fifth tick
(`Recomputes`).

So a process has the state that its threads derive when the wait times are counted if and only if
they derived the same one when it was last brought up to date (`inStep_waitTime_iff`).
-/

namespace FleetOS

variable {k k' k'' : Kernel} {p : ℕ}

/-! ## When a PCB is brought up to date -/

/-- The time of process `p` has come. -/
def Arrives (k : Kernel) (p : ℕ) : Prop :=
  (k.procs p).state = .new ∧ (k.procs p).arrivalTime ≤ k.currentTick

instance (k : Kernel) (p : ℕ) : Decidable (Arrives k p) := inferInstanceAs (Decidable (_ ∧ _))

/-- This part of a tick brings the PCB of process `p` up to date : one of its threads blocks or is
woken, it arrives, or there is a snapshot. -/
def Recomputes (m : Kernel × Phase) (p : ℕ) : Prop :=
  (machineStep m).1.Live p ∧
    ((machineStep m).1.blockedThreads p ≠ m.1.blockedThreads p ∨
      m.2 = .arrivals ∧ Arrives m.1 p ∨
      m.2 = .snapshot ∧ m.1.currentTick % snapshotInterval = 0)

instance (m : Kernel × Phase) (p : ℕ) : Decidable (Recomputes m p) :=
  inferInstanceAs (Decidable (_ ∧ _))

/-- After how many of the first `n` parts of the run from `k` the PCB of process `p` was last
brought up to date. -/
def lastRecomputed (k : Kernel) (p : ℕ) : ℕ → ℕ
  | 0 => 0
  | n + 1 => if Recomputes (machineRun k n) p then n + 1 else lastRecomputed k p n

/-! ## Arrivals -/

theorem arrive_procs (k : Kernel) (q : ℕ) : (arrive k q).currentTick = k.currentTick ∧
    (arrive k q).procs =
      if Arrives k q then Function.update k.procs q (pcbSetState (k.procs q) .ready) else k.procs := by
  by_cases h : Arrives k q
  · have hc : (k.procs q).state = .new ∧ (k.procs q).arrivalTime ≤ k.currentTick := h
    rw [arrive, if_pos hc, if_pos h]
    exact List.foldlRecOn (motive := fun k' : Kernel => k'.currentTick = k.currentTick ∧
      k'.procs = Function.update k.procs q (pcbSetState (k.procs q) .ready)) _ _ ⟨rfl, rfl⟩
      fun k' hk' t _ => by split_ifs <;> exact hk'
  · have he : arrive k q = k := if_neg h
    rw [he, if_neg h]
    exact ⟨rfl, rfl⟩

theorem foldl_arrive_procs (p : ℕ) : ∀ (l : List ℕ) (k : Kernel), (l.foldl arrive k).procs p =
    if p ∈ l ∧ Arrives k p then pcbSetState (k.procs p) .ready else k.procs p
  | [], k => by simp
  | q :: l, k => by
    obtain ⟨htick, hprocs⟩ := arrive_procs k q
    rw [List.foldl_cons, foldl_arrive_procs p l]
    by_cases hqp : q = p
    · subst hqp
      by_cases ha : Arrives k q
      · have hq : (arrive k q).procs q = pcbSetState (k.procs q) .ready := by
          rw [hprocs, if_pos ha, Function.update_self]
        have hno : ¬Arrives (arrive k q) q := fun h => by
          have hs := h.1
          rw [hq] at hs
          cases hs
        rw [if_neg fun h => hno h.2, if_pos ⟨List.mem_cons_self, ha⟩, hq]
      · have hq : (arrive k q).procs q = k.procs q := by rw [hprocs, if_neg ha]
        have hno : ¬Arrives (arrive k q) q := by rwa [Arrives, hq, htick]
        rw [if_neg fun h => hno h.2, if_neg fun h => ha h.2, hq]
    · have hp : (arrive k q).procs p = k.procs p := by
        rw [hprocs]
        split_ifs
        · exact Function.update_of_ne (Ne.symm hqp) _ _
        · rfl
      have ha : Arrives (arrive k q) p ↔ Arrives k p := by rw [Arrives, hp, htick]; rfl
      have hmem : p ∈ q :: l ↔ p ∈ l := by simp [Ne.symm hqp]
      rw [hp]
      exact if_congr (and_congr hmem.symm ha) rfl rfl

/-- What the arrivals do to process `p`. -/
theorem checkArrivals_spec (h : Tables k) (hp : p < k.procCount) :
    (checkArrivals k).threadsOf p = k.threadsOf p ∧
      (checkArrivals k).blockedThreads p = k.blockedThreads p ∧
      (checkArrivals k).procs p =
        (if Arrives k p then pcbSetState (k.procs p) .ready else k.procs p) ∧
      ((k.procs p).state = .new → ∀ t ∈ k.threadsOf p, ((checkArrivals k).tcb t).state = .ready) := by
  have ha := arrived_checkArrivals h
  obtain ⟨woken, hq, hw⟩ := ha.threads
  have hsame : ∀ t ∉ woken, (checkArrivals k).tcb t = k.tcb t := hq.same
  have hready : ∀ t ∈ woken, ((checkArrivals k).tcb t).state = .ready := hq.ready
  refine ⟨threadsOf_congr ha.threadCount (ha.pid p) hq.frame.ownerPid, ?_, ?_, fun hnew t ht => ?_⟩
  · refine blockedThreads_of_frame h.disciplined ha.threadCount (ha.pid p) hq.frame fun t _ ht => ?_
    exact iff_of_false (ne_of_eq_of_ne (hready t ht) (by decide))
      (ne_of_eq_of_ne (hw t ht).2 (by decide))
  · rw [checkArrivals, foldl_arrive_procs]
    exact if_congr (and_iff_right (List.mem_range.mpr hp)) rfl rfl
  · by_cases hwt : t ∈ woken
    · exact hready t hwt
    · rw [hsame t hwt]
      exact (h.fresh p hp hnew t (mem_threadsOf.mp ht).1 (mem_threadsOf.mp ht).2).2

/-- Threads that are all ready. -/
theorem derivedState_of_ready {l : List (ThreadState × BlockReason)} (hne : l ≠ [])
    (h : ∀ c ∈ l, c.1 = .ready) : derivedState l = (.ready, .none) := by
  obtain ⟨c, hc⟩ := List.exists_mem_of_ne_nil l hne
  have hrun : ¬∃ c ∈ l, c.1 = .running := by
    rintro ⟨d, hd, hs⟩
    rw [h d hd] at hs
    cases hs
  rw [derivedState, if_neg hrun, if_pos ⟨c, hc, h c hc⟩]

/-- Without a live thread the PCB stays as it is. -/
theorem syncPcb_of_not_live (h : ¬k.Live p) : syncPcbStateFromThreads k p = k := by
  unfold syncPcbStateFromThreads
  dsimp only
  have hnil : (k.threads.filter fun t =>
      (k.tcb t).ownerPid = (k.procs p).pid ∧ (k.tcb t).state ≠ .done) = [] := by
    refine List.filter_eq_nil_iff.mpr fun t ht hc => ?_
    rw [decide_eq_true_eq] at hc
    exact h (live_of_mem (mem_threadsOf.mpr ⟨mem_threads.mp ht, hc.1⟩) hc.2)
  rw [if_pos hnil, ite_self]

/-! ## Snapshots -/

/-- What the snapshot does to process `p`. -/
structure Snapped (p : ℕ) (k k' : Kernel) : Prop where
  sched : k'.sched = k.sched
  steady : Steady k k'
  new : (k.procs p).state = .new → k'.pcbState p = k.pcbState p
  dead : ¬k.Live p → k'.pcbState p = k.pcbState p

namespace Snapped

theorem refl (p : ℕ) (k : Kernel) : Snapped p k k := ⟨rfl, .refl k, fun _ => rfl, fun _ => rfl⟩

theorem threadsOf (h : Snapped p k k') : k'.threadsOf p = k.threadsOf p := by
  refine threadsOf_congr h.steady.threadCount (h.steady.pid p) fun t => ?_
  rw [Kernel.tcb, h.sched]
  rfl

theorem threadStates (h : Snapped p k k') : k'.threadStates p = k.threadStates p := by
  simp only [Kernel.threadStates, h.threadsOf, Kernel.tcb, h.sched]

theorem trans (h : Snapped p k k') (h' : Snapped p k' k'') : Snapped p k k'' := by
  refine ⟨h'.sched.trans h.sched, h.steady.trans h'.steady, fun hnew => ?_, fun hdead => ?_⟩
  · exact (h'.new ((h.steady.new p).mpr hnew)).trans (h.new hnew)
  · refine (h'.dead fun hl => hdead ?_).trans (h.dead hdead)
    rwa [Kernel.Live, h.threadStates] at hl

end Snapped

theorem untouched_syncPcb_of_ne (k : Kernel) {q : ℕ} (h : p ≠ q) :
    Untouched p k (syncPcbStateFromThreads k q) := by
  refine ⟨threadsOf_syncPcb k p q, fun t _ => ?_, pcbState_syncPcb_of_ne k h⟩
  rw [Kernel.tcb, sched_syncPcb]
  exact ⟨rfl, rfl⟩

theorem snapped_syncPcb (k : Kernel) (p q : ℕ) : Snapped p k (syncPcbStateFromThreads k q) := by
  refine ⟨sched_syncPcb k q, steady_syncPcb k q, fun hnew => ?_, fun hdead => ?_⟩
  all_goals by_cases hpq : p = q
  · exact hpq ▸ pcbState_syncPcb_of_new hnew
  · exact pcbState_syncPcb_of_ne k hpq
  · rw [← hpq, syncPcb_of_not_live hdead]
  · exact pcbState_syncPcb_of_ne k hpq

/-- The loop of the snapshot. -/
def syncUnlessTerminated (k : Kernel) (p : ℕ) : Kernel :=
  if (k.procs p).state = .terminated then k else syncPcbStateFromThreads k p

theorem snapped_foldl (p : ℕ) : ∀ (l : List ℕ) (k : Kernel),
    Snapped p k (l.foldl syncUnlessTerminated k) ∧
      (p ∈ l ∨ InStep k p → InStep (l.foldl syncUnlessTerminated k) p)
  | [], k => ⟨.refl p k, fun h => h.resolve_left List.not_mem_nil⟩
  | q :: l, k => by
    have hstep : Snapped p k (syncUnlessTerminated k q) := by
      unfold syncUnlessTerminated
      split_ifs
      · exact .refl p k
      · exact snapped_syncPcb k p q
    obtain ⟨hs, hi⟩ := snapped_foldl p l (syncUnlessTerminated k q)
    refine ⟨hstep.trans hs, fun h => hi ?_⟩
    by_cases hpq : p = q
    · subst hpq
      right
      unfold syncUnlessTerminated
      split_ifs with hterm
      · exact fun _ hno => absurd hterm hno
      · exact inStep_syncPcb k p
    · refine h.imp (fun hmem => (List.mem_cons.mp hmem).resolve_left hpq) fun hk => ?_
      unfold syncUnlessTerminated
      split_ifs
      · exact hk
      · exact (untouched_syncPcb_of_ne k hpq).inStep hk

/-! ### Steps -/

/-- What a part of a tick does to the PCB of a process that does not end in it. -/
structure PcbStep (p : ℕ) (m : Kernel × Phase) : Prop where
  recomputed : Recomputes m p → InStep (machineStep m).1 p
  kept : ¬Recomputes m p → (machineStep m).1.pcbState p = m.1.pcbState p
  new : ((machineStep m).1.procs p).state = .new → (machineStep m).1.pcbState p = m.1.pcbState p

theorem pcbStep_arrivals {k : Kernel} (h : Tables k) (hp : p < k.procCount)
    (hne : k.threadsOf p ≠ []) (hnone : (k.procs p).state = .new → (k.procs p).blockedReason = .none) :
    PcbStep p (k, .arrivals) := by
  obtain ⟨hof, hb, hprocs, hready⟩ := checkArrivals_spec h hp
  by_cases ha : Arrives k p
  · rw [if_pos ha] at hprocs
    have hall : ∀ c ∈ (checkArrivals k).threadStates p, c.1 = .ready := by
      intro c hc
      rw [Kernel.threadStates, hof] at hc
      obtain ⟨t, ht, rfl⟩ := List.mem_map.mp hc
      exact hready ha.1 t ht
    have hne' : (checkArrivals k).threadStates p ≠ [] := by
      rwa [Kernel.threadStates, hof, ne_eq, List.map_eq_nil_iff]
    have hpcb : (checkArrivals k).pcbState p = (.ready, .none) := by
      rw [Kernel.pcbState, hprocs, ← hnone ha.1]
      rfl
    have hlive : (checkArrivals k).Live p := by
      obtain ⟨c, hc⟩ := List.exists_mem_of_ne_nil _ hne'
      exact ⟨c, hc, ne_of_eq_of_ne (hall c hc) (by decide)⟩
    refine ⟨fun _ _ _ _ => ?_, fun hno => absurd ⟨hlive, Or.inr (Or.inl ⟨rfl, ha⟩)⟩ hno, fun hnew => ?_⟩
    · exact hpcb.trans (derivedState_of_ready hne' hall).symm
    · have hs : ((checkArrivals k).procs p).state = .ready := congrArg Prod.fst hpcb
      exact absurd (hs.symm.trans hnew) (by decide)
  · rw [if_neg ha] at hprocs
    have hpcb : (checkArrivals k).pcbState p = k.pcbState p := by
      rw [Kernel.pcbState, hprocs]
      rfl
    refine ⟨fun hr => ?_, fun _ => hpcb, fun _ => hpcb⟩
    rcases hr.2 with hc | ⟨-, hc⟩ | ⟨hc, -⟩
    · exact absurd hb hc
    · exact absurd hc ha
    · cases hc

theorem pcbStep_snapshot {k : Kernel} (hp : p < k.procCount)
    (htick : k.currentTick % snapshotInterval = 0) : PcbStep p (k, .snapshot) := by
  have he : snapshotSync k = (List.range k.procCount).foldl syncUnlessTerminated k := if_pos htick
  obtain ⟨hs, hi⟩ := snapped_foldl p (List.range k.procCount) k
  rw [← he] at hs hi
  refine ⟨fun _ => hi (Or.inl (List.mem_range.mpr hp)), fun hno => hs.dead fun hl => hno ⟨?_, ?_⟩,
    fun hnew => hs.new ((hs.steady.new p).mp hnew)⟩
  · rw [Kernel.Live, machineStep, hs.threadStates]
    exact hl
  · exact Or.inr (Or.inr ⟨rfl, htick⟩)

theorem pcbStep {m : Kernel × Phase} (h : MachineTables m) (hp : p < m.1.procCount)
    (hne : m.1.threadsOf p ≠ [])
    (hnone : (m.1.procs p).state = .new → (m.1.procs p).blockedReason = .none)
    (halive : ((machineStep m).1.procs p).state ≠ .terminated) : PcbStep p m := by
  by_cases ha : m.2 = .arrivals
  · obtain ⟨k, ph⟩ := m
    obtain rfl : ph = .arrivals := ha
    exact pcbStep_arrivals h.tables hp hne hnone
  by_cases hs : m.2 = .snapshot ∧ m.1.currentTick % snapshotInterval = 0
  · obtain ⟨k, ph⟩ := m
    obtain ⟨rfl, htick⟩ : ph = .snapshot ∧ k.currentTick % snapshotInterval = 0 := hs
    exact pcbStep_snapshot hp htick
  have hset := refreshes_machineStep h hp ha hs halive
  refine ⟨fun hr => ?_, fun hno => hset.same ?_, hset.new⟩
  · rcases hr.2 with hc | ⟨hc, -⟩ | hc
    · exact (hset.changed hc).2
    · exact absurd hc ha
    · exact absurd hc hs
  · by_contra hb
    exact hno ⟨(hset.changed hb).1, Or.inl hb⟩

/-! ## Runs -/

/-- A process as `kernel_init` leaves it. -/
def Booted (c : PCB) : Prop :=
  c.blockedReason = .none ∧ (c.state = .new ∨ c.state = .ready)

theorem booted_setProc {n q : ℕ} {f : PCB → PCB} (h : ∀ i < n, Booted (k.procs i))
    (hf : Booted (k.procs q) → Booted (f (k.procs q))) : ∀ i < n, Booted ((k.setProc q f).procs i) := by
  intro i hi
  by_cases hq : i = q
  · subst hq
    rw [setProc_self]
    exact hf (h i hi)
  · rw [setProc_of_ne k hq]
    exact h i hi

theorem booted_memAllocatePage {c : PCB} (h : Booted c) (m : PhysicalMemory) (page : ℤ)
    (ei : EvictionInfo) : Booted (memAllocatePage m c page ei).pcb := by
  unfold memAllocatePage
  dsimp only
  split_ifs <;> exact h

theorem booted_bootProcess {n : ℕ} (h : ∀ i < n, Booted (k.procs i)) (spec : ProcessSpec × ℕ) :
    ∀ i < n, Booted ((bootProcess k spec).procs i) := by
  have hpage : ∀ (k : Kernel) (page : ℤ), (∀ i < n, Booted (k.procs i)) →
      ∀ i < n, Booted ((bootPage spec.2 k page).procs i) :=
    fun k page h => booted_setProc h (q := spec.2)
      (f := fun _ => (memAllocatePage k.mem (k.procs spec.2) page ⟨false, 0, 0, 0⟩).pcb)
      fun hb => booted_memAllocatePage hb _ _ _
  have hthreads : ∀ (l : List ThreadSpec) (k : Kernel),
      (l.foldl (bootThread spec.2) k).procs = k.procs :=
    fun l k => List.foldlRecOn (motive := fun k' : Kernel => k'.procs = k.procs) l _ rfl
      fun _ hk' _ _ => hk'
  have hadd : ∀ (l : List ℕ) (k : Kernel),
      (l.foldl (fun k t => { k with sched := schedulerAdd k.sched t }) k).procs = k.procs :=
    fun l k => List.foldlRecOn (motive := fun k' : Kernel => k'.procs = k.procs) l _ rfl
      fun _ hk' _ _ => hk'
  have harrival := booted_setProc h (q := spec.2)
    (f := fun c => { c with arrivalTime := spec.1.arrivalTime }) fun hb => hb
  unfold bootProcess
  dsimp only
  set k₁ : Kernel := { k.setProc spec.2 fun c => { c with arrivalTime := spec.1.arrivalTime } with
    graph := _ }
  set k₂ := bootPage spec.2 (bootPage spec.2 k₁ 0) 1
  have h₂ : ∀ i < n, Booted (k₂.procs i) := hpage _ 1 (hpage k₁ 0 harrival)
  split_ifs
  · rw [hadd]
    refine booted_setProc (by rwa [hthreads]) fun hb => ⟨hb.1, Or.inr rfl⟩
  · rwa [hthreads]

theorem booted_kernelInit (k₀ : Kernel) (cfg : KernelConfig) (w : List ProcessSpec) :
    ∀ i < w.length, Booted ((kernelInit k₀ cfg w).procs i) := by
  unfold kernelInit
  refine List.foldlRecOn (motive := fun k : Kernel => ∀ i < w.length, Booted (k.procs i)) _ _
    (fun i hi => ?_) fun k hk spec _ => booted_bootProcess hk spec
  simp [hi, ProcessSpec.create, droneSetCommands, pcbCreate, Booted]

theorem threadsOf_machineStep {m : Kernel × Phase} (h : MachineTables m) (p : ℕ) :
    (machineStep m).1.threadsOf p = m.1.threadsOf p :=
  threadsOf_congr (tableStep h).threadCount ((tableStep h).pid p)
    fun t => congrArg (fun c => c.2.1) ((tableStep h).ident t)

theorem threadsOf_machineRun (k₀ : Kernel) (cfg : KernelConfig) {w : List ProcessSpec}
    (hw : ValidWorkload w) (p n : ℕ) :
    (machineRun (kernelInit k₀ cfg w) n).1.threadsOf p = (kernelInit k₀ cfg w).threadsOf p ∧
      (machineRun (kernelInit k₀ cfg w) n).1.procCount = w.length := by
  have hm := tables_machineRun k₀ cfg hw
  induction n with
  | zero => exact ⟨rfl, (loading_kernelInit k₀ cfg hw).procCount⟩
  | succ n ih =>
    rw [machineRun_succ]
    exact ⟨(threadsOf_machineStep (hm n) p).trans ih.1, (tableStep (hm n)).procCount.trans ih.2⟩

/-- After `n` parts of the run from `k` the PCB of process `p` says what its threads derived when
it was last brought up to date. -/
structure Recorded (k : Kernel) (p n : ℕ) : Prop where
  new : ((machineRun k n).1.procs p).state = .new →
    ((machineRun k n).1.procs p).blockedReason = .none
  arrived : ((machineRun k n).1.procs p).state ≠ .new →
    ((machineRun k n).1.procs p).state ≠ .terminated → (machineRun k n).1.pcbState p =
      derivedState ((machineRun k (lastRecomputed k p n)).1.threadStates p)

theorem Recorded.succ {n : ℕ} (h : Recorded k p n) (hs : PcbStep p (machineRun k n)) :
    Recorded k p (n + 1) := by
  refine ⟨fun hnew => ?_, fun hnew hterm => ?_⟩
  · rw [machineRun_succ] at hnew ⊢
    have he := hs.new hnew
    have hstate : ((machineStep (machineRun k n)).1.procs p).state =
        ((machineRun k n).1.procs p).state := congrArg Prod.fst he
    exact (congrArg Prod.snd he).trans (h.new (hstate ▸ hnew))
  · rw [lastRecomputed]
    split_ifs with hr
    · rw [machineRun_succ] at hnew hterm ⊢
      exact hs.recomputed hr hnew hterm hr.1
    · have he := hs.kept hr
      have hstate : ((machineStep (machineRun k n)).1.procs p).state =
          ((machineRun k n).1.procs p).state := congrArg Prod.fst he
      rw [machineRun_succ] at hnew hterm ⊢
      exact he.trans (h.arrived (hstate ▸ hnew) (hstate ▸ hterm))

theorem recorded_machineRun (k₀ : Kernel) (cfg : KernelConfig) {w : List ProcessSpec}
    (hw : ValidWorkload w) (hp : p < w.length) (hne : (kernelInit k₀ cfg w).threadsOf p ≠ []) :
    ∀ n, Recorded (kernelInit k₀ cfg w) p n := by
  have hm := tables_machineRun k₀ cfg hw
  have hl := loading_kernelInit k₀ cfg hw
  have hrun := threadsOf_machineRun k₀ cfg hw p
  intro n
  induction n with
  | zero =>
    obtain ⟨hreason, hstate⟩ := booted_kernelInit k₀ cfg w p hp
    refine ⟨fun _ => hreason, fun hnew _ => ?_⟩
    have hready : (kernelInit k₀ cfg w).pcbState p = (.ready, .none) :=
      Prod.ext (hstate.resolve_left hnew) hreason
    refine hready.trans (derivedState_of_ready ?_ fun c hc => ?_).symm
    · rwa [Kernel.threadStates, ne_eq, List.map_eq_nil_iff]
    · obtain ⟨t, ht, rfl⟩ := List.mem_map.mp hc
      exact hl.ready t (mem_threadsOf.mp ht).1
  | succ n ih =>
    by_cases hterm : ((machineRun (kernelInit k₀ cfg w) (n + 1)).1.procs p).state = .terminated
    · exact ⟨fun hnew => absurd (hnew.symm.trans hterm) (by decide), fun _ h => absurd hterm h⟩
    · rw [machineRun_succ] at hterm
      exact ih.succ (pcbStep (hm n) ((hrun n).2.symm ▸ hp) ((hrun n).1.symm ▸ hne) ih.new hterm)

/-- When the wait times are counted, a process has the state its threads derive, and waits if one
of them is ready and none runs, if and only if its threads have not derived another state since
it was last brought up to date. -/
theorem inStep_waitTime_iff (k₀ : Kernel) (cfg : KernelConfig) {w : List ProcessSpec}
    (hw : ValidWorkload w) {run : ℕ → Kernel × Phase}
    (hrun : run = machineRun (kernelInit k₀ cfg w)) {n : ℕ} (hph : (run n).2 = .waitTime)
    (hp : p < w.length) (hnew : ((run n).1.procs p).state ≠ .new)
    (hterm : ((run n).1.procs p).state ≠ .terminated) (hlive : (run n).1.Live p) :
    ((run n).1.pcbState p = derivedState ((run n).1.threadStates p) ∧
        (((run (n + 1)).1.procs p).waitTime = ((run n).1.procs p).waitTime + 1 ↔
          (run n).1.Waits p)) ↔
      derivedState ((run n).1.threadStates p) =
        derivedState ((run (lastRecomputed (kernelInit k₀ cfg w) p n)).1.threadStates p) := by
  subst hrun
  obtain ⟨hof, hcount⟩ := threadsOf_machineRun k₀ cfg hw p n
  have hne : (kernelInit k₀ cfg w).threadsOf p ≠ [] := by
    obtain ⟨c, hc, -⟩ := hlive
    obtain ⟨t, ht, -⟩ := List.mem_map.mp hc
    exact List.ne_nil_of_mem (hof ▸ ht)
  have hr := (recorded_machineRun k₀ cfg hw hp hne n).arrived hnew hterm
  rw [machineRun_succ]
  generalize machineRun (kernelInit k₀ cfg w) n = m at *
  obtain ⟨k, ph⟩ := m
  obtain rfl : ph = .waitTime := hph
  have hwait : ((trackWaitTime k).procs p).waitTime = (k.procs p).waitTime + 1 ↔
      (k.procs p).state = .ready := by
    unfold trackWaitTime
    dsimp only
    split_ifs with hc
    · exact iff_of_true rfl hc.2
    · refine iff_of_false (by omega) fun hs => hc ⟨?_, hs⟩
      exact (hcount : k.procCount = w.length) ▸ hp
  constructor
  · exact fun h => h.1.symm.trans hr
  · intro he
    have hpcb : k.pcbState p = derivedState (k.threadStates p) := hr.trans he.symm
    have hstate : (k.procs p).state = (derivedState (k.threadStates p)).1 := congrArg Prod.fst hpcb
    refine ⟨hpcb, hwait.trans ?_⟩
    rw [hstate]
    exact derivedState_ready_iff

/-- In the first tick Flight has been dispatched, and Battery has been ready since it arrived. -/
theorem inStep_waitTime_iff_battery :
    let run := machineRun (kernelInit .zero ⟨.rr, 10, false, false⟩ droneWorkload)
    (run 12).1.pcbState 1 = derivedState ((run 12).1.threadStates 1) ∧
      (((run 13).1.procs 1).waitTime = ((run 12).1.procs 1).waitTime + 1 ↔ (run 12).1.Waits 1) := by
  intro run
  have hw : ValidWorkload droneWorkload := by decide
  have hph : (run 12).2 = .waitTime := by decide +kernel
  have hready : ((run 12).1.procs 1).state = .ready := by decide +kernel
  have hlive : (run 12).1.Live 1 := by decide +kernel
  have he : derivedState ((run 12).1.threadStates 1) = derivedState ((run (lastRecomputed
      (kernelInit .zero ⟨.rr, 10, false, false⟩ droneWorkload) 1 12)).1.threadStates 1) := by
    decide +kernel
  exact (inStep_waitTime_iff .zero ⟨.rr, 10, false, false⟩ hw rfl hph (by decide)
    (ne_of_eq_of_ne hready (by decide)) (ne_of_eq_of_ne hready (by decide)) hlive).mpr he

/-- In the first tick Flight runs, and its PCB says that it is ready and has waited a tick. -/
theorem running_process_waits :
    let run := machineRun (kernelInit .zero ⟨.rr, 10, false, false⟩ droneWorkload)
    ValidWorkload droneWorkload ∧ (run 12).2 = .waitTime ∧ (run 12).1.Live 0 ∧
      (run 12).1.pcbState 0 = (.ready, .none) ∧
      derivedState ((run 12).1.threadStates 0) = (.running, .none) ∧
      ((run 13).1.procs 0).waitTime = ((run 12).1.procs 0).waitTime + 1 ∧
      ¬(run 12).1.Waits 0 := by
  refine ⟨by decide, ?_⟩
  decide +kernel

end FleetOS
