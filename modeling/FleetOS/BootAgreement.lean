import FleetOS.KernelAgreement
import FleetOS.Statics

/-!
# Agreement after the initialisation

`kernel_init` resets some of the variables and leaves the rest as it finds them. Over any two
memories it comes to kernels that agree (`sameBoot_kernelInit`), and it prints the same
(`kernelInitLog_eq`) : the loop over the processes writes a TCB, a PCB and a priority before it
reads it.
-/

namespace FleetOS

open TwoRuns

/-! ## The reset -/

theorem Scheduler.agree_schedulerInit (s s' : Scheduler) (mode : SchedMode) :
    (schedulerInit s mode).Agree 0 (schedulerInit s' mode) where
  tcb := fun t ht => absurd ht t.not_lt_zero
  rr := rfl
  mlfq := rfl
  currentThread := rfl
  schedMode := rfl
  quantumRemaining := rfl
  contextSwitches := rfl
  currentQueue := rfl
  lastBoostTick := rfl
  priorityBoostCount := rfl
  threadTable := rfl

theorem ResourceGraph.agree_deadlockInit (g g' : ResourceGraph) :
    (deadlockInit g).Agree ∅ (deadlockInit g') where
  allocation := rfl
  request := rfl
  active := rfl
  waitPid := rfl
  available := fun rid hrid => by
    obtain rfl | rfl | rfl : rid = 0 ∨ rid = 1 ∨ rid = 2 := by
      simp only [validRid, numResources] at hrid
      omega
    all_goals rfl
  priority := fun _ hpid => absurd hpid (Set.notMem_empty _)
  active_mem := fun _ ha => by cases ha

theorem agree_clearedKernel (k₀ k₁ : Kernel) (cfg : KernelConfig) (w : List ProcessSpec) :
    Kernel.Agree 0 w.length ∅ (clearedKernel k₀ cfg w) (clearedKernel k₁ cfg w) where
  threadCount := rfl
  threadCount' := rfl
  procCount := rfl
  procCount' := rfl
  config := rfl
  currentTick := rfl
  procs := fun p hp => by simp only [clearedKernel, List.getElem?_eq_getElem hp, Option.map_some,
    Option.getD_some]
  sched := Scheduler.agree_schedulerInit k₀.sched k₁.sched cfg.schedMode
  pending := rfl
  pendingCount := rfl
  sensorBuf := rfl
  ioSeq := rfl
  mem := rfl
  fs := rfl
  graph := ResourceGraph.agree_deadlockInit k₀.graph k₁.graph
  deadlockPhase := rfl

/-! ## One process -/

namespace Kernel.Agree

variable {n m p : ℕ} {pids : Set ℤ} {k k' : Kernel}

/-- A new thread : all of its TCB is written. -/
theorem bootThread (h : Agree n m pids k k') (hp : p < m) (spec : ThreadSpec) :
    Agree (n + 1) m pids (bootThread p k spec) (bootThread p k' spec) := by
  have htcb : ∀ t < n + 1,
      (FleetOS.bootThread p k' spec).sched.tcb t = (FleetOS.bootThread p k spec).sched.tcb t := by
    intro t ht
    simp only [FleetOS.bootThread, Kernel.setTcb, Scheduler.setTcb_tcb, h.threadCount,
      h.threadCount', h.procs p hp]
    split_ifs with htn
    · rfl
    · exact h.sched.tcb t (by omega)
  have hsched : (FleetOS.bootThread p k spec).sched.Agree (n + 1)
      (FleetOS.bootThread p k' spec).sched :=
    { h.sched with tcb := htcb }
  exact { h with
    threadCount := congrArg (· + 1) h.threadCount
    threadCount' := congrArg (· + 1) h.threadCount'
    sched := hsched }

theorem bootThreads (hp : p < m) : ∀ (l : List ThreadSpec) {n : ℕ} {k k' : Kernel},
    Agree n m pids k k' → Agree (n + l.length) m pids (l.foldl (FleetOS.bootThread p) k)
      (l.foldl (FleetOS.bootThread p) k')
  | [], _, _, _, h => h
  | spec :: l, n, _, _, h => by
    have htail := bootThreads hp l (h.bootThread hp spec)
    rwa [Nat.add_assoc, Nat.add_comm 1, ← List.length_cons (a := spec)] at htail

theorem bootPage (h : Agree n m pids k k') (hp : p < m) (page : ℤ) :
    Agree n m pids (bootPage p k page) (bootPage p k' page) := by
  unfold FleetOS.bootPage
  rw [h.mem, h.procs p hp]
  exact { h.setProc p fun _ => (memAllocatePage k.mem (k.procs p) page ⟨false, 0, 0, 0⟩).pcb with
    mem := rfl }

theorem setPriority (h : Agree n m pids k k') {pid : ℤ} (hpid : validPid pid) (prio : Priority) :
    Agree n m (insert pid pids) { k with graph := deadlockSetPriority k.graph pid prio }
      { k' with graph := deadlockSetPriority k'.graph pid prio } :=
  { h with graph := h.graph.deadlockSetPriority hpid prio }

theorem addThreads (h : Agree n m pids k k') {l : List ℕ} (hl : ∀ t ∈ l, t < n) :
    Agree n m pids (l.foldl (fun k t => { k with sched := schedulerAdd k.sched t }) k)
      (l.foldl (fun k t => { k with sched := schedulerAdd k.sched t }) k') :=
  List.foldl_rel h fun t ht _ _ hc => hc.setSched (hc.sched.schedulerAdd (hl t ht))

/-- The body of the loop, for a process of the table. -/
theorem bootProcess (h : Agree n m pids k k') (spec : ProcessSpec) (hp : p < m)
    (hpid : validPid (k.procs p).pid) :
    Agree (n + spec.threads.length) m (insert (k.procs p).pid pids) (bootProcess k (spec, p))
      (bootProcess k' (spec, p)) := by
  set arrival : PCB → PCB := fun c => { c with arrivalTime := spec.arrivalTime }
  have hself : ((k.setProc p arrival).procs p).pid = (k.procs p).pid := by
    rw [setProc_self]
  have h₁ := h.setProc p arrival
  have h₂ := h₁.setPriority (hself ▸ hpid) ((k.setProc p arrival).procs p).priority
  have h₃ := (h₂.bootPage hp 0).bootPage hp 1
  have h₄ := h₃.bootThreads hp spec.threads
  suffices hboot : Agree (n + spec.threads.length) m (insert ((k.setProc p arrival).procs p).pid pids)
      (FleetOS.bootProcess k (spec, p)) (FleetOS.bootProcess k' (spec, p)) by
    rwa [hself] at hboot
  unfold FleetOS.bootProcess
  dsimp only
  rw [h₁.procs p hp]
  refine ite_rel (by rw [h₄.procs p hp]) (fun _ => ?_) fun _ => h₄
  rw [h₃.threadCount, h₃.threadCount']
  exact (h₄.setProc p fun c => pcbSetState c .ready).addThreads fun t ht =>
    (List.mem_range'_1.mp ht).2

theorem bootProcessLog (h : Agree n m pids k k') (spec : ProcessSpec) (hp : p < m) :
    bootProcessLog k' (spec, p) = bootProcessLog k (spec, p) := by
  have h₁ := h.setProc p fun c => { c with arrivalTime := spec.arrivalTime }
  have h₂ := h₁.bootPage hp 0
  unfold FleetOS.bootProcessLog
  dsimp only
  rw [h₁.mem, h₁.procs p hp, h₂.mem, h₂.procs p hp]

end Kernel.Agree

/-! ## The loop -/

/-- Two kernels in the loop of `kernel_init`, when the first `i` processes are there. -/
def SameBoot (w : List ProcessSpec) (i : ℕ) (k k' : Kernel) : Prop :=
  ∃ n pids, Kernel.Agree n w.length pids k k' ∧ ∀ p < w.length, p < i → (k.procs p).pid ∈ pids

section loop

variable {w : List ProcessSpec} {i : ℕ} {k k' : Kernel}

theorem SameBoot.process (h : SameBoot w i k k') (hw : ValidWorkload w) (hi : i < w.length)
    (hl : Loading w (threadIds (w.take i)) i k) :
    SameBoot w (i + 1) (bootProcess k (w[i], i)) (bootProcess k' (w[i], i)) := by
  obtain ⟨n, pids, hagree, hpids⟩ := h
  have hvalid : validPid (k.procs i).pid := hl.pid i hi ▸ hw.pid_range _ (List.getElem_mem hi)
  refine ⟨_, _, hagree.bootProcess w[i] hi hvalid, fun p hp hpi => ?_⟩
  have hkept : ((bootProcess k (w[i], i)).procs p).pid = (k.procs p).pid :=
    ((hl.process hw hi).pid p hp).trans (hl.pid p hp).symm
  rw [hkept]
  obtain hlt | rfl := Nat.lt_succ_iff_lt_or_eq.mp hpi
  · exact Or.inr (hpids p hp hlt)
  · exact Or.inl rfl

/-- The rest of the loop : the kernels agree at its end, and it has printed the same. -/
theorem SameBoot.processes (hw : ValidWorkload w) : ∀ (l : List ProcessSpec) (i : ℕ) (k k' : Kernel),
    w.drop i = l → Loading w (threadIds (w.take i)) i k → SameBoot w i k k' →
      SameBoot w w.length ((l.zipIdx i).foldl bootProcess k) ((l.zipIdx i).foldl bootProcess k') ∧
        foldOut bootProcess bootProcessLog k' (l.zipIdx i) =
          foldOut bootProcess bootProcessLog k (l.zipIdx i)
  | [], i, k, k', _, _, ⟨n, pids, hagree, hpids⟩ => by
    have hi : w.length ≤ i := by simpa using ‹w.drop i = []›
    exact ⟨⟨n, pids, hagree, fun p hp _ => hpids p hp (hp.trans_le hi)⟩, rfl⟩
  | spec :: l, i, k, k', hl, hload, h => by
    have hi : i < w.length := by
      by_contra hge
      rw [List.drop_of_length_le (not_lt.mp hge)] at hl
      cases hl
    rw [List.drop_eq_getElem_cons hi] at hl
    obtain ⟨hspec, htail⟩ := List.cons.inj hl
    subst hspec
    obtain ⟨hend, hout⟩ := SameBoot.processes hw l (i + 1) _ _ htail (hload.process hw hi)
      (h.process hw hi hload)
    obtain ⟨n, pids, hagree, -⟩ := h
    refine ⟨hend, ?_⟩
    rw [List.zipIdx_cons, foldOut, foldOut, hout, hagree.bootProcessLog w[i] hi]

end loop

/-! ## The initialisation -/

theorem sameBoot_clearedKernel (k₀ k₁ : Kernel) (cfg : KernelConfig) (w : List ProcessSpec) :
    SameBoot w 0 (clearedKernel k₀ cfg w) (clearedKernel k₁ cfg w) :=
  ⟨0, ∅, agree_clearedKernel k₀ k₁ cfg w, fun p _ hp => absurd hp p.not_lt_zero⟩

theorem sameBoot_kernelInit (k₀ k₁ : Kernel) (cfg : KernelConfig) {w : List ProcessSpec}
    (hw : ValidWorkload w) : SameBoot w w.length (kernelInit k₀ cfg w) (kernelInit k₁ cfg w) :=
  (SameBoot.processes hw w 0 _ _ rfl (loading_clearedKernel k₀ cfg w)
    (sameBoot_clearedKernel k₀ k₁ cfg w)).1

theorem kernelInitLog_eq (k₀ k₁ : Kernel) (cfg : LaunchConfig) {w : List ProcessSpec}
    (hw : ValidWorkload w) : kernelInitLog k₁ cfg w = kernelInitLog k₀ cfg w := by
  rw [kernelInitLog, kernelInitLog,
    (SameBoot.processes hw w 0 _ _ rfl (loading_clearedKernel k₀ cfg.toKernelConfig w)
      (sameBoot_clearedKernel k₀ k₁ cfg.toKernelConfig w)).2]

end FleetOS
