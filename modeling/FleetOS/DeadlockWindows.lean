import FleetOS.IoEvents
import FleetOS.ProcessTimes
import FleetOS.Recovery
import FleetOS.ResourceWaits

/-!
# The deadlocks of a run

In a run processes `0` and `1` ask for the landing pad and the charging station, and all others for
the communication channel only. A graph in which each process asks for its own kinds of resources
(`Confined`) keeps this when waiters are served. So at most one cycle is possible, the one of `0` and
`1` (`deadlocked_iff`), which makes up for what the search lacks : whoever leads to a cycle is on it,
so the victim is, and the resolution leaves no cycle. The search comes every ten ticks, hence no
deadlock outlasts the next tick that is a multiple of ten (`deadlocks_machineRun`).
-/

namespace FleetOS

open ResourceGraph

/-! ## Who asks for what -/

/-- Only the pairs of a process and a resource in `S` have entries. -/
structure ResourceGraph.Confined (S : ℤ → ℤ → Prop) (g : ResourceGraph) : Prop where
  allocation : ∀ p r, g.allocation p r ≠ 0 → S p r
  request : ∀ p r, g.request p r ≠ 0 → S p r
  waiting : ∀ r, ∀ p ∈ g.waitPid r, S p r

section confined

variable {S : ℤ → ℤ → Prop} {g : ResourceGraph} {pid rid : ℤ}

namespace ResourceGraph.Confined

theorem granted (h : g.Confined S) (hs : S pid rid) : (g.granted pid rid).Confined S := by
  refine ⟨fun p r hne => ?_, fun p r hne => ?_, h.waiting⟩ <;> dsimp only [ResourceGraph.granted] at hne <;>
    rw [setEntry_apply] at hne <;> split_ifs at hne with he
  · exact he.1 ▸ he.2 ▸ hs
  · exact h.allocation p r hne
  · exact absurd rfl hne
  · exact h.request p r hne

theorem alloc (h : g.Confined S) (hs : S pid rid) : (deadlockAlloc g pid rid).1.Confined S := by
  rcases deadlockAlloc_cases g pid rid with he | ⟨-, -, -, he⟩ <;> rw [he]
  · exact h
  · exact h.granted hs

theorem requested (h : g.Confined S) (hs : S pid rid) : (g.requested pid rid).Confined S := by
  refine ⟨h.allocation, fun p r hne => ?_, h.waiting⟩
  dsimp only [ResourceGraph.requested] at hne
  rw [setEntry_apply] at hne
  split_ifs at hne with he
  · exact he.1 ▸ he.2 ▸ hs
  · exact h.request p r hne

theorem deadlockRequest (h : g.Confined S) (hs : S pid rid) :
    (deadlockRequest g pid rid).1.Confined S := by
  rcases deadlockRequest_cases g pid rid with he | ⟨-, -, -, ⟨-, he⟩ | ⟨-, -, he⟩ | ⟨-, -, he⟩⟩ <;> rw [he]
  · exact h
  · exact (h.requested hs).granted hs
  · exact h.requested hs
  · refine ⟨h.allocation, (h.requested hs).request, fun r p hp => ?_⟩
    dsimp only at hp
    rw [Function.update_apply] at hp
    split_ifs at hp with hr
    · rcases List.mem_append.mp hp with hp | hp
      · exact hr ▸ h.waiting rid p hp
      · exact hr ▸ List.mem_singleton.mp hp ▸ hs
    · exact h.waiting r p hp

theorem cleanup (h : g.Confined S) (hg : g.Rows) (hp : validPid pid) :
    (deadlockCleanupProcess g pid).Confined S := by
  obtain ⟨ha, hr, -, hw, -⟩ := deadlockCleanupProcess_spec hg hp
  refine ⟨fun p r hne => ?_, fun p r hne => ?_, fun r p hmem => h.waiting r p (hw ▸ hmem)⟩
  · rw [ha] at hne
    split_ifs at hne
    · exact absurd rfl hne
    · exact h.allocation p r hne
  · rw [hr] at hne
    split_ifs at hne
    · exact absurd rfl hne
    · exact h.request p r hne

theorem scanWaiters : ∀ (ws : List ℤ) {g : ResourceGraph}, g.Confined S → (∀ p ∈ ws, S p rid) →
    (scanWaiters rid g ws).graph.Confined S
  | [], _, h, _ => h
  | w :: ws, g, h, hs => by
    have hrest := fun p hp => hs p (List.mem_cons_of_mem w hp)
    rw [FleetOS.scanWaiters]
    split_ifs
    · exact scanWaiters ws h hrest
    · exact scanWaiters ws h hrest
    · exact scanWaiters ws (h.alloc (hs w List.mem_cons_self)) hrest
    · exact scanWaiters ws h hrest

theorem wakeWaiters (h : g.Confined S) (rid : ℤ) : (deadlockWakeWaiters g rid).1.Confined S := by
  have hs := scanWaiters (g.waitPid rid) h (h.waiting rid)
  have hwait : ∀ r, ∀ p ∈ (deadlockWakeWaiters g rid).1.waitPid r, S p r := by
    intro r p hp
    rw [deadlockWakeWaiters_waitPid] at hp
    split_ifs at hp with hr
    · obtain ⟨hp, h0⟩ := List.mem_filter.mp hp
      have h0 : 0 ≤ p := by simpa using h0
      rcases (scanWaiters_mem rid (g.waitPid rid) g).2.1 p hp with hp | hp
      · exact hr.2 ▸ h.waiting rid p hp
      · omega
    · exact h.waiting r p hp
  unfold deadlockWakeWaiters at hwait ⊢
  split_ifs at hwait ⊢
  · exact ⟨hs.allocation, hs.request, hwait⟩
  · exact h

theorem resolve (h : g.Confined S) (hg : g.Rows) (pid : ℤ) : (deadlockResolve g pid).1.Confined S := by
  unfold deadlockResolve
  split_ifs with hp
  · exact wakeAll_keeps (P := fun g => g.Confined S) (fun _ rid h => h.wakeWaiters rid) (h.cleanup hg hp)
  · exact h

end ResourceGraph.Confined

end confined

/-! ## The one cycle -/

/-- The resources of processes `0` and `1` are no concern of the others. -/
def Apart (p r : ℤ) : Prop := r = resourceCommChannel ↔ p ≠ 0 ∧ p ≠ 1

section cycles

variable {g : ResourceGraph} {p q : ℤ}

/-- The holder of the channel waits on nobody. -/
theorem WaitsOn.head_of_waits (hc : g.Confined Apart) (hg : g.Rows) {q' : ℤ} (hw : WaitsOn g p q)
    (hw' : WaitsOn g q q') : p = 0 ∧ q = 1 ∨ p = 1 ∧ q = 0 := by
  have hne := hw.ne hg
  obtain ⟨-, -, r, hr, ha⟩ := hw
  obtain ⟨-, -, r', hr', -⟩ := hw'
  have hp := hc.request p r (by omega)
  have hq := hc.allocation q r (by omega)
  have hq' := hc.request q r' (by omega)
  have hexcl := hg.exclusive q r'
  unfold Apart at hp hq hq'
  by_cases hpair : p = 0 ∨ p = 1
  · have hqpair : q = 0 ∨ q = 1 := by
      by_contra hout
      have hr2 := hq.mpr (by omega)
      have := hp.mp hr2
      omega
    omega
  · -- `q` holds the channel that it asks for itself
    have hr2 := hp.mpr (by omega)
    have hr2' := hq'.mpr (hq.mp hr2)
    rw [hr2', ← hr2] at hexcl
    rw [hr2', ← hr2] at hr'
    have := hexcl (by omega)
    omega

/-- Who leads to a cycle waits on somebody who does. -/
theorem Stuck.next (h : Stuck g p) : ∃ q, WaitsOn g p q ∧ Stuck g q := by
  obtain ⟨c, hc, hpc⟩ := h
  rcases Relation.ReflTransGen.cases_head hpc with rfl | ⟨q, hw, hqc⟩
  · obtain ⟨q, hw, hqp⟩ := Relation.TransGen.head'_iff.mp hc
    exact ⟨q, hw, p, hc, hqp⟩
  · exact ⟨q, hw, c, hc, hqc⟩

/-- Processes `0` and `1` wait on each other. -/
theorem Stuck.mutual (h : Stuck g p) (hc : g.Confined Apart) (hg : g.Rows) :
    (p = 0 ∨ p = 1) ∧ WaitsOn g 0 1 ∧ WaitsOn g 1 0 := by
  obtain ⟨q, hpq, hq⟩ := h.next
  obtain ⟨q', hqq', hq'⟩ := hq.next
  obtain ⟨q'', hqq'', -⟩ := hq'.next
  rcases hpq.head_of_waits hc hg hqq' with ⟨rfl, rfl⟩ | ⟨rfl, rfl⟩ <;>
    rcases hqq'.head_of_waits hc hg hqq'' with ⟨h1, rfl⟩ | ⟨h1, rfl⟩
  · cases h1
  · exact ⟨Or.inl rfl, hpq, hqq'⟩
  · exact ⟨Or.inr rfl, hqq', hpq⟩
  · cases h1

theorem deadlocked_iff (hc : g.Confined Apart) (hg : g.Rows) :
    Deadlocked g p ↔ (p = 0 ∨ p = 1) ∧ WaitsOn g 0 1 ∧ WaitsOn g 1 0 := by
  constructor
  · intro h
    exact Stuck.mutual ⟨p, h, .refl⟩ hc hg
  · rintro ⟨rfl | rfl, h01, h10⟩
    · exact .head h01 (.single h10)
    · exact .head h10 (.single h01)

/-- The victim is on the cycle, and the cycle is gone when it is taken out. -/
theorem deadlocked_of_detect (hc : g.Confined Apart) (hg : g.Rows) {v : ℤ}
    (hv : deadlockDetect g = some v) : Deadlocked g v :=
  (deadlocked_iff hc hg).mpr ((deadlockDetect_eq_some hg hv).1.mutual hc hg)

theorem not_deadlocked_resolve (hc : g.Confined Apart) (hg : g.Rows) {v : ℤ}
    (hv : deadlockDetect g = some v) : ¬Deadlocked (deadlockResolve g v).1 p := by
  have hvalid := hg.active_valid v (deadlockDetect_active hg hv)
  obtain ⟨hpair, -⟩ := (deadlocked_iff hc hg).mp (deadlocked_of_detect hc hg hv)
  rw [deadlocked_iff (hc.resolve hg v) (hg.resolve v)]
  rintro ⟨-, ⟨h0, h1, -⟩, -⟩
  rw [deadlockResolve_active hg hvalid] at h0 h1
  rcases hpair with rfl | rfl
  · simp at h0
  · simp at h1

end cycles

/-! ## Runs -/

/-- A process of the table asks for the resources of its pid. -/
def Kernel.Asks (k : Kernel) (p r : ℤ) : Prop :=
  (∃ i < k.procCount, (k.procs i).pid = p) ∧ Apart p r

theorem apart_wantedResource (k : Kernel) (pid : ℤ) : Apart pid (wantedResource k pid) := by
  unfold Apart wantedResource
  split_ifs with h0 _ h1 <;> simp_all [resourceCommChannel, resourceLandingPad, resourceChargeStation]

theorem ResourceGraph.Confined.mono {S S' : ℤ → ℤ → Prop} {g : ResourceGraph} (h : g.Confined S)
    (hs : ∀ p r, S p r → S' p r) : g.Confined S' :=
  ⟨fun p r hne => hs p r (h.allocation p r hne), fun p r hne => hs p r (h.request p r hne),
    fun r p hp => hs p r (h.waiting r p hp)⟩

theorem confined_machineStep {m : Kernel × Phase} (h : MachineGraph m)
    (hc : m.1.graph.Confined m.1.Asks) :
    (machineStep m).1.graph.Confined (machineStep m).1.Asks := by
  have ht := tableStep h.tables
  have hasks : (machineStep m).1.Asks = m.1.Asks := by
    unfold Kernel.Asks
    rw [ht.procCount]
    simp only [ht.pid]
  rw [hasks]
  cases hf : faultedAt m with
  | some p =>
    rw [(faulted_machineStep h.tables hf).graph]
    exact hc.resolve h.rows _
  | none =>
    rw [graph_machineStep h.tables hf]
    cases hr : requestingAt m with
    | none => exact hc
    | some t =>
      have hrun := (requestingAt_some hr).2.1
      have howner := h.tables.tables.owner t (h.tables.tables.running_lt hrun)
      exact hc.deadlockRequest ⟨howner, apart_wantedResource _ _⟩

theorem confined_machineRun (k₀ : Kernel) (cfg : KernelConfig) {w : List ProcessSpec}
    (hw : ValidWorkload w) (n : ℕ) :
    (machineRun (kernelInit k₀ cfg w) n).1.graph.Confined (machineRun (kernelInit k₀ cfg w) n).1.Asks := by
  induction n with
  | zero =>
    obtain ⟨k₁, hl, -, -, -, -, hg⟩ := loaded_kernelInit k₀ cfg w
    have hgraph : (kernelInit k₀ cfg w).graph =
        { deadlockInit k₀.graph with priority := (kernelInit k₀ cfg w).graph.priority } := by
      conv_lhs => rw [hl]
      rw [← hg]
    have hempty : (kernelInit k₀ cfg w).graph.Confined (kernelInit k₀ cfg w).Asks := by
      rw [hgraph]
      exact ⟨fun _ _ hne => absurd rfl hne, fun _ _ hne => absurd rfl hne,
        fun _ _ hp => absurd hp List.not_mem_nil⟩
    exact hempty
  | succ n ih =>
    rw [machineRun_succ]
    exact confined_machineStep (machineGraph_machineRun k₀ cfg hw n) ih

theorem apart_machineRun (k₀ : Kernel) (cfg : KernelConfig) {w : List ProcessSpec}
    (hw : ValidWorkload w) (n : ℕ) : (machineRun (kernelInit k₀ cfg w) n).1.graph.Confined Apart :=
  (confined_machineRun k₀ cfg hw n).mono fun _ _ h => h.2

/-- Every ten ticks the cycle is broken up. -/
theorem not_deadlocked_detect {m : Kernel × Phase} (h : MachineGraph m)
    (hc : m.1.graph.Confined m.1.Asks) (hp : m.2 = .detect) (h0 : 0 < m.1.currentTick)
    (h10 : m.1.currentTick % 10 = 0) (p : ℤ) : ¬Deadlocked (machineStep m).1.graph p := by
  have hapart : m.1.graph.Confined Apart := hc.mono fun _ _ h => h.2
  obtain ⟨k, ph⟩ := m
  obtain rfl : ph = .detect := hp
  cases hv : deadlockDetect k.graph with
  | none =>
    have hvictim : deadlockVictim k = none := by rw [deadlockVictim, if_pos ⟨h0, h10⟩, hv]
    have hnone : ¬∃ p, Deadlocked k.graph p := by
      rw [← deadlockDetect_isSome h.rows, hv]
      simp
    simp only [machineStep, detectDeadlock, hvictim]
    exact fun hd => hnone ⟨p, hd⟩
  | some v =>
    obtain ⟨q, hw, -⟩ := (deadlockDetect_eq_some h.rows hv).1.next
    obtain ⟨r, hr, -⟩ := hw.2.2
    obtain ⟨i, hi, hpid⟩ := (hc.request v r (by omega)).1
    have hproc : k.findProc v = some i := hpid ▸ findProc_pid h.tables.tables.pids hi
    have hvictim : faultedAt (k, .detect) = some i := by
      simp only [faultedAt, deadlockVictim, if_pos (And.intro h0 h10), hv, hproc]
    rw [(faulted_machineStep h.tables hvictim).graph, hpid]
    exact not_deadlocked_resolve hapart h.rows hv

/-! ## How long a deadlock lasts -/

/-- The search of tick `T` is still to come. -/
def Before (T : ℤ) (m : Kernel × Phase) : Prop :=
  m.1.currentTick < T ∨ m.1.currentTick = T ∧ (m.2 = .halted ∨ Phase.detect.remaining ≤ m.2.remaining)

/-- The parts before the search lead to it. -/
theorem early_machineStep {m : Kernel × Phase} (hd : m.2 ≠ .detect)
    (h : m.2 = .halted ∨ Phase.detect.remaining ≤ m.2.remaining) :
    (machineStep m).2 = .halted ∨ Phase.detect.remaining ≤ (machineStep m).2.remaining := by
  obtain ⟨k, ph⟩ := m
  cases ph with
  | detect => exact absurd rfl hd
  | top =>
    simp only [machineStep]
    split_ifs <;> simp [Phase.remaining]
  | execute =>
    simp only [machineStep]
    split <;> simp [Phase.remaining]
  | halted => exact Or.inl rfl
  | _ => simp_all [machineStep, Phase.remaining]

theorem Before.step {T : ℤ} {m : Kernel × Phase} (h : Before T m) (ht : MachineTables m)
    (hd : m.2 = .detect → m.1.currentTick ≠ T) : Before T (machineStep m) := by
  by_cases hf : m.2 = .finish
  · have hlt : m.1.currentTick < T := by
      rcases h with h | ⟨-, h⟩
      · exact h
      · simp [hf, Phase.remaining] at h
    obtain ⟨k, ph⟩ := m
    obtain rfl : ph = .finish := hf
    simp only [machineStep]
    split_ifs
    · exact Or.inl hlt
    · rcases (Int.add_one_le_iff.mpr hlt).lt_or_eq with h | h
      · exact Or.inl h
      · exact Or.inr ⟨h, by simp [Phase.remaining]⟩
  · unfold Before
    rw [(tableStep ht).currentTick hf]
    rcases h with h | ⟨hT, h⟩
    · exact Or.inl h
    · exact Or.inr ⟨hT, early_machineStep (fun hp => hd hp hT) h⟩

/-- In a run only processes `0` and `1` can wait for each other, the victim is one of them, and they do
so for ten ticks at most. -/
theorem deadlocks_machineRun (k₀ : Kernel) (cfg : KernelConfig) {w : List ProcessSpec}
    (hw : ValidWorkload w) :
    (∀ n, let g := (machineRun (kernelInit k₀ cfg w) n).1.graph
      (∀ p, Deadlocked g p ↔ (p = 0 ∨ p = 1) ∧ WaitsOn g 0 1 ∧ WaitsOn g 1 0) ∧
        ∀ v, deadlockDetect g = some v → Deadlocked g v) ∧
    ∀ i j, i ≤ j →
      (∀ n, i ≤ n → n ≤ j → ∃ p, Deadlocked (machineRun (kernelInit k₀ cfg w) n).1.graph p) →
      (machineRun (kernelInit k₀ cfg w) j).1.currentTick ≤
        (machineRun (kernelInit k₀ cfg w) i).1.currentTick + 10 := by
  have hgraph := machineGraph_machineRun k₀ cfg hw
  have hconf := confined_machineRun k₀ cfg hw
  have hapart := apart_machineRun k₀ cfg hw
  set run := machineRun (kernelInit k₀ cfg w) with hrun
  refine ⟨fun n => ⟨fun p => deadlocked_iff (hapart n) (hgraph n).rows,
    fun v hv => deadlocked_of_detect (hapart n) (hgraph n).rows hv⟩, fun i j hij hcycle => ?_⟩
  set now := (run i).1.currentTick with hnow
  have h0 : 0 ≤ now := currentTick_nonneg k₀ cfg hw i
  -- the next tick with a search
  obtain ⟨T, hlow, hhigh, hmod⟩ : ∃ T, now < T ∧ T ≤ now + 10 ∧ T % 10 = 0 :=
    ⟨(now / 10 + 1) * 10, by omega, by omega, by omega⟩
  have hbefore : ∀ n, i ≤ n → n ≤ j → Before T (run n) := by
    intro n hn
    induction n, hn using Nat.le_induction with
    | base => exact fun _ => Or.inl hlow
    | succ n hn ih =>
      intro hj
      have hsucc : run (n + 1) = machineStep (run n) := machineRun_succ _ n
      rw [hsucc]
      refine (ih (by omega)).step (hgraph n).tables fun hp hT => ?_
      obtain ⟨p, hp'⟩ := hcycle (n + 1) (by omega) hj
      rw [hsucc] at hp'
      exact not_deadlocked_detect (hgraph n) (hconf n) hp (by omega) (by omega) p hp'
  rcases hbefore j hij le_rfl with h | ⟨h, -⟩ <;> omega

/-- In round robin mode drones `0` and `1` wait for each other from tick `32` to the detection of tick
`40`. -/
theorem deadlocks_machineRun_drones :
    let run := machineRun (kernelInit .zero ⟨.rr, 100, true, false⟩ droneWorkload)
    (∀ n ≤ 648, 519 ≤ n → Deadlocked (run n).1.graph 0 ∧ WaitsOn (run n).1.graph 0 1 ∧
      WaitsOn (run n).1.graph 1 0) ∧ (run 648).1.currentTick ≤ (run 519).1.currentTick + 10 := by
  have h := deadlocks_machineRun .zero ⟨.rr, 100, true, false⟩ valid_droneWorkload
  have hdetect : let run := machineRun (kernelInit .zero ⟨.rr, 100, true, false⟩ droneWorkload)
      ∀ n ≤ 648, 519 ≤ n → deadlockDetect (run n).1.graph = some 0 := by
    intro run
    decide +kernel
  generalize machineRun (kernelInit .zero ⟨.rr, 100, true, false⟩ droneWorkload) = run at h hdetect ⊢
  have hcycle : ∀ n ≤ 648, 519 ≤ n → Deadlocked (run n).1.graph 0 := fun n hn hlow =>
    (h.1 n).2 0 (hdetect n hn hlow)
  refine ⟨fun n hn hlow => ⟨hcycle n hn hlow, (((h.1 n).1 0).mp (hcycle n hn hlow)).2⟩, ?_⟩
  exact h.2 519 648 (by omega) fun n hlow hn => ⟨0, hcycle n hn hlow⟩

end FleetOS
