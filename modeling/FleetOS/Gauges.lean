import FleetOS.Bursts
import FleetOS.LogFiles
import FleetOS.QuantumCharges

/-!
# Counters of a run

The counters that a run moves, and how far it moves them. The parts of a tick that can change the
quantum, the number of boosts or the burst of a thread change each by one unit, and a tick has four
of them (`clock`). A dispatch gives a quantum of `2`, `4` or `8`, and every other part leaves it as
it is (`SameGauges`). The queues of the mode that is not in use stay empty.
-/

namespace FleetOS

/-! ## The scheduler -/

/-- From `s` to `s'` the boosts and the queues of the other mode stay as they are, and so does the
quantum, unless a thread gets a new one. -/
structure SameGauges (s s' : Scheduler) : Prop where
  mode : s'.schedMode = s.schedMode
  rr : s.schedMode = .mlfq → s'.rr = s.rr
  mlfq : s.schedMode = .rr → s'.mlfq = s.mlfq
  boosts : s'.priorityBoostCount = s.priorityBoostCount
  quantum : s'.quantumRemaining = s.quantumRemaining ∨
    2 ≤ s'.quantumRemaining ∧ s'.quantumRemaining ≤ 8

namespace SameGauges

variable {s s' s'' : Scheduler}

theorem refl (s : Scheduler) : SameGauges s s := ⟨rfl, fun _ => rfl, fun _ => rfl, rfl, Or.inl rfl⟩

theorem trans (h : SameGauges s s') (h' : SameGauges s' s'') : SameGauges s s'' := by
  refine ⟨h'.mode.trans h.mode, fun hm => ?_, fun hm => ?_, h'.boosts.trans h.boosts, ?_⟩
  · exact (h'.rr (h.mode.trans hm)).trans (h.rr hm)
  · exact (h'.mlfq (h.mode.trans hm)).trans (h.mlfq hm)
  · rcases h'.quantum with hq | hq
    · rw [hq]
      exact h.quantum
    · exact Or.inr hq

theorem setTcb (s : Scheduler) (t : ℕ) (f : TCB → TCB) : SameGauges s (s.setTcb t f) :=
  ⟨rfl, fun _ => rfl, fun _ => rfl, rfl, Or.inl rfl⟩

theorem setRr (hm : s.schedMode = .rr) (q : ReadyQueue) : SameGauges s (s.setRr q) := by
  refine ⟨rfl, fun hm' => ?_, fun _ => rfl, rfl, Or.inl rfl⟩
  rw [hm] at hm'
  cases hm'

theorem setMlfq (hm : s.schedMode = .mlfq) (l : ℤ) (q : ReadyQueue) : SameGauges s (s.setMlfq l q) := by
  refine ⟨rfl, fun _ => rfl, fun hm' => ?_, rfl, Or.inl rfl⟩
  rw [hm] at hm'
  cases hm'

theorem schedulerAdd (s : Scheduler) (t : ℕ) : SameGauges s (schedulerAdd s t) := by
  have hregister : ∀ s : Scheduler, SameGauges s (s.register t) := by
    intro s
    unfold Scheduler.register
    split_ifs <;> exact ⟨rfl, fun _ => rfl, fun _ => rfl, rfl, Or.inl rfl⟩
  unfold FleetOS.schedulerAdd
  split
  · split_ifs
    · exact .refl s
    · exact .refl s
    · exact ((setRr ‹_› _).trans (setTcb _ t _)).trans (hregister _)
  · dsimp only
    split_ifs
    · exact .refl s
    · exact ((setMlfq ‹_› _ _).trans (setTcb _ t _)).trans (hregister _)

theorem yieldCurrent (s : Scheduler) : SameGauges s (yieldCurrent s) := by
  unfold FleetOS.yieldCurrent
  split
  · exact .refl s
  · split_ifs
    · split
      · exact (setRr ‹_› _).trans (setTcb _ _ _)
      · exact (setMlfq ‹_› _ _).trans (setTcb _ _ _)
    · exact .refl s

theorem dispatch (s : Scheduler) (next : ℕ) {quantum : ℤ} (hq : 2 ≤ quantum ∧ quantum ≤ 8) :
    SameGauges s (dispatch s next quantum) :=
  ⟨rfl, fun _ => rfl, fun _ => rfl, rfl, Or.inr hq⟩

theorem mlfqQuantum_range (queue : ℤ) : 2 ≤ mlfqQuantum queue ∧ mlfqQuantum queue ≤ 8 := by
  unfold mlfqQuantum
  split_ifs <;> decide

theorem schedulerNext (s : Scheduler) : SameGauges s (schedulerNext s) := by
  have hy := yieldCurrent s
  unfold FleetOS.schedulerNext
  split
  · split_ifs
    · exact .refl s
    · have hm : (FleetOS.yieldCurrent s).schedMode = .rr := hy.mode.trans ‹_›
      exact (hy.trans (setRr hm _)).trans (dispatch _ _ (by decide))
  · split_ifs
    · exact .refl s
    · have hm : (FleetOS.yieldCurrent s).schedMode = .mlfq := hy.mode.trans ‹_›
      dsimp only
      split
      · exact hy
      · split
        · exact hy
        · rename_i chosen _ _ next q _
          have hq : SameGauges ((FleetOS.yieldCurrent s).setMlfq chosen q)
              { (FleetOS.yieldCurrent s).setMlfq chosen q with currentQueue := chosen } :=
            ⟨rfl, fun _ => rfl, fun _ => rfl, rfl, Or.inl rfl⟩
          exact ((hy.trans (setMlfq hm _ _)).trans hq).trans (dispatch _ _ (mlfqQuantum_range _))

theorem removeQueued (s : Scheduler) (t : ℕ) : SameGauges s (removeQueued s t) := by
  unfold FleetOS.removeQueued
  split
  · split
    · exact .refl s
    · exact setRr ‹_› _
  · split
    · exact .refl s
    · split
      · exact .refl s
      · exact setMlfq ‹_› _ _

theorem idle (s : Scheduler) : SameGauges s { s with currentThread := none } :=
  ⟨rfl, fun _ => rfl, fun _ => rfl, rfl, Or.inl rfl⟩

theorem schedulerBlock (s : Scheduler) (t : ℕ) : SameGauges s (schedulerBlock s t) := by
  unfold FleetOS.schedulerBlock
  split_ifs
  · exact .refl s
  · exact ((setTcb s t _).trans (idle _)).trans (schedulerNext _)
  · exact (idle s).trans (schedulerNext _)
  · exact removeQueued s t

theorem schedulerTerminate (s : Scheduler) (t : ℕ) : SameGauges s (schedulerTerminate s t) := by
  unfold FleetOS.schedulerTerminate
  dsimp only
  split_ifs
  · exact ((idle s).trans (removeQueued _ t)).trans (setTcb _ t _)
  · exact (removeQueued s t).trans (setTcb _ t _)

theorem boostQueue (i : ℤ) : ∀ (fuel : ℕ) {s : Scheduler}, s.schedMode = .mlfq →
    SameGauges s (boostQueue i fuel s)
  | 0, s, _ => .refl s
  | fuel + 1, s, hm => by
    rw [Scheduler.boostQueue_succ]
    split_ifs
    · exact .refl s
    · have h₁ : SameGauges s (s.boostPop i) := (setMlfq hm _ _).trans (setTcb _ _ _)
      have h₂ : SameGauges (s.boostPop i) (s.boostStep i) := setMlfq (h₁.mode.trans hm) _ _
      exact (h₁.trans h₂).trans (boostQueue i fuel ((h₁.trans h₂).mode.trans hm))

theorem demoteCurrent (s : Scheduler) (c : ℕ) : SameGauges s (demoteCurrent s c) := by
  unfold FleetOS.demoteCurrent
  by_cases hm : s.schedMode = .mlfq ∧ (s.tcb c).state = .running
  · rw [if_pos hm]
    exact (setMlfq hm.1 _ _).trans (setTcb _ c _)
  · rw [if_neg hm]
    exact .refl s

/-- The current thread is charged, if there is one. -/
theorem chargeQuantum (s : Scheduler) : SameGauges s (chargeQuantum s) ∨
    SameGauges { s with quantumRemaining := s.quantumRemaining - 1 } (chargeQuantum s) := by
  rcases Option.eq_none_or_eq_some s.currentThread with hcur | ⟨c, hcur⟩
  · rw [chargeQuantum_of_none hcur]
    exact Or.inl (schedulerNext s)
  · rw [chargeQuantum_of_some hcur]
    split_ifs
    · exact Or.inr ((demoteCurrent _ c).trans (schedulerNext _))
    · exact Or.inr (.refl _)

end SameGauges

/-! ### Bounds -/

/-- After `c` charges : the quantum, the boosts, and the queues of the other mode. -/
structure Gauged (s : Scheduler) (c : ℤ) : Prop where
  rr_empty : s.schedMode = .mlfq → s.rr.count = 0
  mlfq_empty : s.schedMode = .rr → ∀ l, (s.mlfq l).count = 0
  quantum : -c ≤ s.quantumRemaining ∧ s.quantumRemaining ≤ 8
  boosts : 0 ≤ s.priorityBoostCount ∧ s.priorityBoostCount ≤ c

namespace Gauged

variable {s s' : Scheduler} {c : ℤ}

theorem mono (h : Gauged s c) {d : ℤ} (hcd : c ≤ d) : Gauged s d :=
  ⟨h.rr_empty, h.mlfq_empty, ⟨(Int.neg_le_neg hcd).trans h.quantum.1, h.quantum.2⟩,
    ⟨h.boosts.1, h.boosts.2.trans hcd⟩⟩

theorem same (h : Gauged s c) (hs : SameGauges s s') : Gauged s' c := by
  refine ⟨fun hm => ?_, fun hm l => ?_, ?_, hs.boosts.symm ▸ h.boosts⟩
  · rw [hs.rr (hs.mode.symm.trans hm)]
    exact h.rr_empty (hs.mode.symm.trans hm)
  · rw [hs.mlfq (hs.mode.symm.trans hm)]
    exact h.mlfq_empty (hs.mode.symm.trans hm) l
  · have hc := h.boosts
    rcases hs.quantum with hq | hq
    · rw [hq]
      exact h.quantum
    · constructor <;> omega

/-- The tick of the last boost does not count. -/
theorem boosted (h : Gauged s c) (tick : ℤ) : Gauged { s with lastBoostTick := tick } c :=
  ⟨h.rr_empty, h.mlfq_empty, h.quantum, h.boosts⟩

theorem charge (h : Gauged s c) :
    Gauged { s with quantumRemaining := s.quantumRemaining - 1 } (c + 1) := by
  have hq := h.quantum
  refine ⟨h.rr_empty, h.mlfq_empty, ⟨?_, ?_⟩, (h.mono (lt_add_one c).le).boosts⟩ <;>
  · dsimp only
    omega

theorem boost (h : Gauged s (c + 1)) (hb : s.priorityBoostCount ≤ c) (tick : ℤ) :
    Gauged (schedulerPriorityBoost s tick) (c + 1) := by
  unfold schedulerPriorityBoost
  split
  · exact h
  · rename_i hm
    set s₀ : Scheduler :=
      { s with lastBoostTick := tick, priorityBoostCount := s.priorityBoostCount + 1 }
    have h₀ : Gauged s₀ (c + 1) := by
      have := h.boosts.1
      refine ⟨h.rr_empty, h.mlfq_empty, h.quantum, ?_, ?_⟩ <;>
      · dsimp only [s₀]
        omega
    have h₁ : SameGauges s₀ (boostQueue 1 (s₀.mlfq 1).count s₀) := .boostQueue 1 _ hm
    exact h₀.same (h₁.trans (.boostQueue 2 _ (h₁.mode.trans hm)))

/-- One charge, and a boost at most. -/
theorem schedulerTick (h : Gauged s c) (tick : ℤ) : Gauged (schedulerTick s tick) (c + 1) := by
  have hcharge : ∀ b, Gauged (chargeQuantum { s with lastBoostTick := b }) (c + 1) ∧
      (chargeQuantum { s with lastBoostTick := b }).priorityBoostCount = s.priorityBoostCount := by
    intro b
    rcases SameGauges.chargeQuantum { s with lastBoostTick := b } with hs | hs
    · exact ⟨((h.boosted b).mono (lt_add_one c).le).same hs, hs.boosts⟩
    · exact ⟨(h.boosted b).charge.same hs, hs.boosts⟩
  obtain ⟨b, he | ⟨-, he⟩⟩ := schedulerTick_cases s tick <;> rw [he]
  · exact (hcharge b).1
  · exact (hcharge b).1.boost ((hcharge b).2.trans_le h.boosts.2) tick

end Gauged

/-! ### The parts of a tick -/

theorem threadRelation_sameGauges : ThreadRelation fun k k' => SameGauges k.sched k'.sched where
  trans := SameGauges.trans
  same h := h.sched ▸ .refl _

theorem sameGauges_unblockThread (k : Kernel) (t : ℕ) :
    SameGauges k.sched (unblockThread k t).sched := by
  rw [sched_unblockThread]
  exact (SameGauges.setTcb k.sched t _).trans (.schedulerAdd _ t)

theorem wakeRelation_sameGauges : WakeRelation fun k k' => SameGauges k.sched k'.sched :=
  ⟨threadRelation_sameGauges, fun {k t} _ _ => sameGauges_unblockThread k t⟩

theorem serveRelation_sameGauges : ServeRelation fun k k' => SameGauges k.sched k'.sched where
  toThreadRelation := threadRelation_sameGauges
  done k t := .setTcb k.sched t fun c => { c with state := .done }
  terminate k _ := .refl k.sched
  serve {k _ t} _ _ _ := (sameGauges_unblockThread k t).trans (.setTcb _ t _)

section steps

variable {k : Kernel} {t : ℕ}

theorem sameGauges_blockThread (k : Kernel) (t : ℕ) (reason : BlockReason) :
    SameGauges k.sched (blockThread k t reason).sched := by
  unfold blockThread
  split_ifs
  · exact .refl k.sched
  · rw [sched_syncOwner]
    exact (SameGauges.setTcb k.sched t fun c => threadBlock c reason).trans (.schedulerBlock _ t)

theorem sameGauges_executeCommand (k : Kernel) (t : ℕ) :
    SameGauges k.sched (executeCommand k t).sched := by
  have hx := commandEffect k t
  generalize executeCommand k t = k' at hx ⊢
  cases hx with
  | @ran k₁ h _ =>
    have hwake := wakeRelation_sameGauges.wakeThreads (k₁.setTcb t threadExecute) (executeWakes k t)
    exact h.sched ▸ (SameGauges.setTcb k₁.sched t threadExecute).trans hwake
  | refused h _ _ _ => exact h.sched ▸ sameGauges_blockThread _ t _
  | acquired h _ _ => exact h.sched ▸ .setTcb _ t TCB.advance
  | @wrote k₁ h _ _ pid path =>
    rw [registerIo_rest]
    exact h.sched ▸ (SameGauges.setTcb k₁.sched t TCB.advance).trans
      (sameGauges_blockThread (k₁.setTcb t TCB.advance) t .ioBlock)

theorem sameGauges_triggerPageFault (k : Kernel) :
    SameGauges k.sched (triggerPageFault k).sched := by
  rcases triggerPageFault_cases k with
    ⟨pcb, addr, he⟩ | he | ⟨t, p, pcb, addr, page, -, -, -, -, -, he⟩
  · rw [he]
    exact .refl k.sched
  · rw [he]
    exact .refl k.sched
  · set k₁ : Kernel := { k with mem := (memAccess k.mem pcb addr).mem }
    have hs := (calm_registerPageFault (blockThread k₁ t .pageFault) (k.procs p).pid page).2
    rw [he, hs]
    exact sameGauges_blockThread k₁ t .pageFault

/-- Only `scheduler_tick` charges the quantum and boosts. -/
theorem sameGauges_machineStep {m : Kernel × Phase} (hp : m.2 ≠ .schedTick) :
    SameGauges m.1.sched (machineStep m).1.sched := by
  obtain ⟨k, ph⟩ := m
  cases ph with
  | top =>
    simp only [machineStep]
    split_ifs <;> exact .refl k.sched
  | arrivals =>
    exact threadRelation_sameGauges.checkArrivals (fun k _ => .refl k.sched)
      (fun k t => .schedulerAdd k.sched t) k
  | ioEvents => exact wakeRelation_sameGauges.foldl wakeRelation_sameGauges.completeIoEvent _ k
  | pageFaults => exact wakeRelation_sameGauges.foldl wakeRelation_sameGauges.completePageFault _ k
  | dispatch =>
    simp only [machineStep, ensureRunning]
    split_ifs
    · exact .refl k.sched
    · exact .schedulerNext k.sched
  | execute =>
    simp only [machineStep]
    split
    · exact .refl k.sched
    · exact sameGauges_executeCommand k _
  | retire t => exact serveRelation_sameGauges.retire (.schedulerTerminate k.sched t)
  | detect => exact serveRelation_sameGauges.detectDeadlock k
  | crash => exact serveRelation_sameGauges.injectCrash k
  | pageFault => exact sameGauges_triggerPageFault k
  | schedTick => exact absurd rfl hp
  | snapshot =>
    have hs : (machineStep (k, .snapshot)).1.sched = k.sched := sched_snapshotSync k
    exact hs ▸ .refl k.sched
  | wakeWaiters => exact wakeRelation_sameGauges.wakeBufferWaiters k
  | finish =>
    simp only [machineStep]
    split_ifs <;> exact .refl k.sched
  | _ => exact .refl k.sched

end steps

/-! ## The clock of the counters -/

/-- How many of the four parts of the present tick that move counters are over. -/
def Phase.counts : Phase → ℤ
  | .top | .arrivals | .ioEvents | .pageFaults | .compact | .dispatch | .execute => 0
  | .retire _ | .detect => 1
  | .crash => 2
  | .pageFault | .schedTick => 3
  | _ => 4

/-- The parts of a tick that move counters. -/
def Phase.Moving (ph : Phase) : Prop :=
  ph = .execute ∨ ph = .detect ∨ ph = .crash ∨ ph = .schedTick

def clock (m : Kernel × Phase) : ℤ := 4 * m.1.currentTick + m.2.counts

theorem Phase.counts_range (ph : Phase) : 0 ≤ ph.counts ∧ ph.counts ≤ 4 := by
  cases ph <;> simp [Phase.counts]

theorem clock_machineStep {m : Kernel × Phase} (ht : MachineTables m) :
    clock m ≤ clock (machineStep m) ∧ (m.2.Moving → clock m + 1 ≤ clock (machineStep m)) := by
  have htick := (tableStep ht).currentTick
  obtain ⟨k, ph⟩ := m
  unfold clock
  cases ph with
  | top =>
    simp only [machineStep]
    split_ifs <;> simp [Phase.counts, Phase.Moving]
  | execute =>
    rw [htick (by simp)]
    simp only [machineStep]
    split <;> simp [Phase.counts]
  | finish =>
    simp only [machineStep]
    split_ifs <;> simp [Phase.counts, Phase.Moving]
    omega
  | _ =>
    rw [htick (by simp)]
    simp [machineStep, Phase.counts, Phase.Moving]

theorem gauged_machineStep {m : Kernel × Phase} (ht : MachineTables m) (h : Gauged m.1.sched (clock m)) :
    Gauged (machineStep m).1.sched (clock (machineStep m)) := by
  obtain ⟨hle, hlt⟩ := clock_machineStep ht
  by_cases hp : m.2 = .schedTick
  · have htick := hlt (Or.inr (Or.inr (Or.inr hp)))
    obtain ⟨k, ph⟩ := m
    subst hp
    exact (h.schedulerTick k.currentTick).mono htick
  · exact (h.same (sameGauges_machineStep hp)).mono hle

/-- What `kernel_init` does to the scheduler and the threads. -/
theorem threads_kernelInit {P : Kernel → Prop} {w : List ProcessSpec}
    (hsame : ∀ {k k' : Kernel}, k'.sched = k.sched → k'.threadCount = k.threadCount → P k → P k')
    (hthread : ∀ {k : Kernel} (p : ℕ), ∀ spec ∈ w, ∀ s ∈ spec.threads, P k → P (bootThread p k s))
    (hadd : ∀ {k : Kernel} (t : ℕ), P k → P { k with sched := schedulerAdd k.sched t })
    (k₀ : Kernel) (cfg : KernelConfig)
    (hinit : P { k₀ with sched := schedulerInit k₀.sched cfg.schedMode, threadCount := 0 }) :
    P (kernelInit k₀ cfg w) := by
  unfold kernelInit
  refine List.foldlRecOn _ _ (hsame (by rfl) (by rfl) hinit) fun k hk spec hmem => ?_
  have hspec : spec.1 ∈ w := List.fst_mem_of_mem_zipIdx hmem
  unfold bootProcess
  dsimp only
  set k₁ := bootPage spec.2 (bootPage spec.2 _ 0) 1
  have h₁ : P k₁ := hsame (by rfl) (by rfl) hk
  have h₂ : P (spec.1.threads.foldl (bootThread spec.2) k₁) :=
    List.foldlRecOn _ _ h₁ fun k hk s hs => hthread spec.2 spec.1 hspec s hs hk
  split_ifs
  · exact List.foldlRecOn _ _ (hsame (by rfl) (by rfl) h₂) fun k hk t _ => hadd t hk
  · exact h₂

theorem sameGauges_kernelInit (k₀ : Kernel) (cfg : KernelConfig) (w : List ProcessSpec) :
    SameGauges (schedulerInit k₀.sched cfg.schedMode) (kernelInit k₀ cfg w).sched := by
  refine threads_kernelInit (P := fun k => SameGauges _ k.sched) (fun hs _ h => hs ▸ h)
    (fun {k} p spec _ s _ h => ?_) (fun {k} t h => h.trans (.schedulerAdd k.sched t)) k₀ cfg (.refl _)
  rw [sched_bootThread]
  exact h.trans (.setTcb k.sched _ _)

theorem clock_kernelInit (k₀ : Kernel) (cfg : KernelConfig) (w : List ProcessSpec) :
    clock (kernelInit k₀ cfg w, .top) = 0 := by
  simp [clock, Phase.counts, currentTick_kernelInit]

theorem gauged_machineRun (k₀ : Kernel) (cfg : KernelConfig) {w : List ProcessSpec}
    (hw : ValidWorkload w) (n : ℕ) :
    Gauged (machineRun (kernelInit k₀ cfg w) n).1.sched (clock (machineRun (kernelInit k₀ cfg w) n)) := by
  induction n with
  | zero =>
    refine Gauged.same ?_ (sameGauges_kernelInit k₀ cfg w)
    have hc := clock_kernelInit k₀ cfg w
    change Gauged _ (clock (kernelInit k₀ cfg w, .top))
    rw [hc]
    refine ⟨fun _ => rfl, fun _ _ => rfl, ?_, ⟨le_rfl, le_rfl⟩⟩
    unfold schedulerInit
    cases cfg.schedMode <;> simp [schedQuantumRr, schedQuantumMlfqQ0]
  | succ n ih =>
    rw [machineRun_succ]
    exact gauged_machineStep (tables_machineRun k₀ cfg hw n) ih

/-! ## The threads -/

/-- What holds of every new thread, and is about its progress only, holds of all threads at the start. -/
theorem tcbs_kernelInit {Q : TCB → Prop} {w : List ProcessSpec}
    (hprogress : ∀ {c c' : TCB}, c'.progress = c.progress → Q c → Q c')
    (hboot : ∀ spec ∈ w, ∀ s ∈ spec.threads, ∀ c fresh, Q (bootTcb c s fresh)) (k₀ : Kernel)
    (cfg : KernelConfig) :
    ∀ t < (kernelInit k₀ cfg w).threadCount, Q ((kernelInit k₀ cfg w).tcb t) := by
  refine threads_kernelInit (P := fun k => ∀ t < k.threadCount, Q (k.tcb t))
    (fun hs hn h t ht => ?_) (fun {k} p spec hspec s hs h t ht => ?_) (fun {k} u h t ht => ?_) k₀ cfg
    fun t ht => absurd ht t.not_lt_zero
  · rw [Kernel.tcb, hs]
    exact h t (hn ▸ ht)
  · rw [Kernel.tcb, sched_bootThread, Scheduler.setTcb_tcb]
    split_ifs with he
    · exact hboot spec hspec s hs _ _
    · exact h t (lt_of_le_of_ne (Nat.lt_succ_iff.mp ht) he)
  · exact hprogress (progress_schedulerAdd k.sched u t) (h t ht)

/-- The program counter points to a command, and the burst has its bounds. -/
structure TCB.Within (c : TCB) (low high : ℤ) : Prop where
  count : 0 < c.commandCount ∧ c.commandCount ≤ maxCommands
  pc : 0 ≤ c.localPc ∧ c.localPc < c.commandCount
  burst : low ≤ c.burstRemaining ∧ c.burstRemaining ≤ high

namespace TCB.Within

variable {c c' : TCB} {low high : ℤ}

theorem of_progress (h : c.Within low high) (hp : c'.progress = c.progress) : c'.Within low high := by
  simp only [TCB.progress, Prod.mk.injEq] at hp
  obtain ⟨-, hn, hpc, -, hb⟩ := hp
  refine ⟨?_, ?_, ?_⟩
  · rw [hn]
    exact h.count
  · rw [hn, hpc]
    exact h.pc
  · rw [hb]
    exact h.burst

theorem mono (h : c.Within low high) {low' : ℤ} (hl : low' ≤ low) : c.Within low' high :=
  ⟨h.count, h.pc, ⟨hl.trans h.burst.1, h.burst.2⟩⟩

theorem nextPc (h : c.Within low high) : 0 ≤ c.nextPc ∧ c.nextPc < c.commandCount :=
  have hpos : 0 ≤ c.localPc + 1 := by
    have := h.pc.1
    omega
  ⟨Int.tmod_nonneg _ hpos, Int.tmod_lt_of_pos _ h.count.1⟩

theorem spent (h : c.Within low high) :
    low - 1 ≤ c.burstRemaining - 1 ∧ c.burstRemaining - 1 ≤ high := by
  have := h.burst
  omega

theorem advance (h : c.Within low high) : c.advance.Within (low - 1) high :=
  ⟨h.count, h.nextPc, h.spent⟩

theorem threadExecute (h : c.Within low high) : (threadExecute c).Within (low - 1) high := by
  have hkept : c.Within (low - 1) high := h.mono (sub_one_lt low).le
  unfold FleetOS.threadExecute
  split_ifs
  · exact hkept
  · exact hkept
  · exact h.advance
  · exact ⟨h.count, h.pc, h.spent⟩

end TCB.Within

theorem phase_of_faultedAt {m : Kernel × Phase} {p : ℕ} (h : faultedAt m = some p) :
    m.2 = .detect ∨ m.2 = .crash := by
  obtain ⟨k, ph⟩ := m
  cases ph with
  | detect => exact Or.inl rfl
  | crash => exact Or.inr rfl
  | _ => cases h

/-- A thread completes one command at most in each part of a tick that moves counters. -/
theorem within_machineStep {m : Kernel × Phase} (ht : MachineTables m) {t : ℕ} {high : ℤ}
    (h : (m.1.tcb t).Within (-clock m) high) :
    ((machineStep m).1.tcb t).Within (-clock (machineStep m)) high := by
  obtain ⟨hle, hlt⟩ := clock_machineStep ht
  have hmoved : m.2.Moving → -clock (machineStep m) ≤ -clock m - 1 := fun hp => by
    have := hlt hp
    omega
  cases progressStep ht t with
  | same hp => exact (h.of_progress hp).mono (Int.neg_le_neg hle)
  | executed hp _ hx =>
    have hm := hmoved (Or.inl hp)
    cases hx with
    | executed he => exact he ▸ h.threadExecute.mono hm
    | acquired _ _ he => exact he ▸ h.advance.mono hm
    | wrote _ hp => exact (h.advance.of_progress hp).mono hm
    | refused hp => exact (h.of_progress hp).mono (Int.neg_le_neg hle)
  | served hs hp =>
    refine (h.advance.of_progress hp).mono (hmoved ?_)
    obtain ⟨p, hp, -⟩ := hs
    exact Or.inr ((phase_of_faultedAt hp).imp_right Or.inl)

end FleetOS
