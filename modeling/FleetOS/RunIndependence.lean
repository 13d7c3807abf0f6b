import FleetOS.BootAgreement
import FleetOS.IoEvents
import FleetOS.LogAgreement

/-!
# Simulations from any statics

What a simulation prints and measures does not depend on what an earlier one has left in the
static variables (`simulation_independent`). The kernels agree when the initialisation is over,
every part of a tick keeps the agreement and prints the same, and the loop comes to its end after
the same number of parts.
-/

namespace FleetOS

open TwoRuns

/-! ## The end of the loop -/

section halting

variable {m : Kernel × Phase}

/-- How many parts are left until the loop of `kernel_run` ends, at most. -/
def stepsLeft (m : Kernel × Phase) : ℕ :=
  if m.2 = .halted then 0
  else 16 * (m.1.config.maxTicks - m.1.currentTick).toNat + m.2.remaining - 14

/-- The tables are right, and a tick that has begun is one of the first `max_ticks`. -/
structure InTime (m : Kernel × Phase) : Prop where
  tables : MachineTables m
  bounded : 0 < m.1.config.maxTicks
  begun : m.2 ≠ .top → m.2 ≠ .halted → m.1.currentTick < m.1.config.maxTicks

theorem InTime.machineStep (h : InTime m) : InTime (machineStep m) := by
  have hs := tableStep h.tables
  refine ⟨tables_machineStep h.tables, hs.config ▸ h.bounded, fun htop hhalt => ?_⟩
  rw [hs.config]
  by_cases hfin : m.2 = .finish
  · exact absurd (finish_machineStep hfin) (by simp only [htop, hhalt, false_and, or_false, not_false_eq_true])
  rw [hs.currentTick hfin]
  obtain ⟨k, ph⟩ := m
  cases ph with
  | top =>
    by_contra hlate
    refine hhalt ?_
    rw [FleetOS.machineStep, if_pos ⟨h.bounded, not_lt.mp hlate⟩]
  | halted => exact absurd rfl hhalt
  | _ => exact h.begun (by simp) (by simp)

theorem InTime.stepsLeft_lt (h : InTime m) (hm : m.2 ≠ .halted) :
    stepsLeft (FleetOS.machineStep m) < stepsLeft m := by
  have hs := tableStep h.tables
  have hleft : 14 < 16 * (m.1.config.maxTicks - m.1.currentTick).toNat + m.2.remaining := by
    by_cases htop : m.2 = .top
    · rw [htop]
      simp only [Phase.remaining]
      omega
    · have := h.begun htop hm
      omega
  rw [stepsLeft, stepsLeft, if_neg hm]
  split_ifs with hhalt
  · omega
  rw [hs.config]
  by_cases hfin : m.2 = .finish
  · obtain ⟨htop, htick⟩ := (finish_machineStep hfin).resolve_left hhalt
    have := h.begun (by simp [hfin]) hm
    rw [htop, htick, hfin]
    simp only [Phase.remaining]
    omega
  · have hlt := (remaining_machineStep hfin).resolve_left hhalt
    rw [hs.currentTick hfin]
    omega

/-- The loop has ended when none is left. -/
theorem InTime.halted (h : InTime m) {n : ℕ} (hn : stepsLeft m ≤ n) :
    (FleetOS.machineStep^[n] m).2 = .halted := by
  refine Machine.done_iterate (D := fun m => m.2 = .halted) (fun _ h => h.machineStep)
    (fun m hm => ?_) (fun _ h hm => h.stepsLeft_lt hm) h hn
  obtain ⟨k, ph⟩ := m
  obtain rfl : ph = .halted := hm
  rfl

end halting

/-! ## The loop without the interactive mode -/

section loop

variable {interact : ℤ → Controls → Controls × List CString} {x x' : Statics × Phase}

/-- A simulation that has not been stopped by hand and cannot be. -/
structure Statics.Unattended (s : Statics) : Prop where
  interactive : s.interactive = false
  running : s.controls.running = true

/-- What `machineStep` knows of a state of the loop. -/
def machineOf (x : Statics × Phase) : Kernel × Phase := (x.1.kernel, x.2)

theorem loopStep_top {s : Statics} (h : s.Unattended) :
    loopStep interact (s, .top) =
      if s.kernel.timeUp then (s, .halted)
      else
        ({ s with
          kernel := (machineStep (s.kernel, .top)).1
          clocks := ⟨s.kernel.currentTick, s.kernel.currentTick⟩ },
          (machineStep (s.kernel, .top)).2) := by
  simp only [loopStep, h.interactive, h.running, Bool.not_true, Bool.false_eq_true, false_or,
    if_false]

theorem Statics.Unattended.loopStep (h : x.1.Unattended) :
    (loopStep interact x).1.Unattended := by
  obtain ⟨s, ph⟩ := x
  cases ph with
  | top =>
    rw [loopStep_top h]
    split_ifs <;> exact ⟨h.interactive, h.running⟩
  | _ => exact ⟨h.interactive, h.running⟩

theorem machineStep_top_of_timeUp {k : Kernel} (h : k.timeUp = true) :
    machineStep (k, .top) = (k, .halted) :=
  if_pos (of_decide_eq_true h)

theorem machineOf_loopStep (h : x.1.Unattended) :
    machineOf (loopStep interact x) = machineStep (machineOf x) := by
  obtain ⟨s, ph⟩ := x
  cases ph with
  | top =>
    rw [loopStep_top h]
    split_ifs with ht
    · exact (machineStep_top_of_timeUp ht).symm
    · rfl
  | _ => rfl

theorem loopLog_eq_partLog (h : x.1.Unattended) :
    loopLog interact x = partLog x.1.clocks (machineOf x) := by
  obtain ⟨s, ph⟩ := x
  cases ph with
  | top =>
    have h : s.Unattended := h
    simp only [loopLog, h.interactive, h.running, Bool.not_true, Bool.false_eq_true, if_false]
    split_ifs with ht
    · rfl
    · exact (if_neg fun hlate => ht (decide_eq_true hlate)).symm
  | _ => rfl

/-- Two loops at the same part. The clocks are set at the top of the loop. -/
structure SameLoop (n m : ℕ) (pids : Set ℤ) (x x' : Statics × Phase) : Prop where
  agree : Kernel.Agree.AgreeAt n m pids (machineOf x) (machineOf x')
  tables : MachineTables (machineOf x)
  pids_mem : ∀ p < m, (x.1.kernel.procs p).pid ∈ pids
  unattended : x.1.Unattended
  unattended' : x'.1.Unattended
  clocks : x.2 ≠ .top → x.2 ≠ .halted → x'.1.clocks = x.1.clocks

theorem Kernel.Agree.timeUp {n m : ℕ} {pids : Set ℤ} {k k' : Kernel}
    (h : Kernel.Agree n m pids k k') : k'.timeUp = k.timeUp := by
  rw [Kernel.timeUp, Kernel.timeUp, h.config, h.currentTick]

namespace SameLoop

variable {n m : ℕ} {pids : Set ℤ}

theorem loopLog (h : SameLoop n m pids x x') : loopLog interact x' = loopLog interact x := by
  rw [loopLog_eq_partLog h.unattended, loopLog_eq_partLog h.unattended',
    Kernel.Agree.partLog h.agree h.tables h.pids_mem]
  by_cases hclocks : x.2 = .top ∨ x.2 = .halted
  · obtain ⟨s, ph⟩ := x
    obtain rfl | rfl : ph = .top ∨ ph = .halted := hclocks
    · rfl
    · rfl
  · rw [h.clocks (fun htop => hclocks (Or.inl htop)) fun hhalt => hclocks (Or.inr hhalt)]

theorem clocks_loopStep (h : SameLoop n m pids x x') (hhalt : (loopStep interact x).2 ≠ .halted)
    (htop : (loopStep interact x).2 ≠ .top) :
    (loopStep interact x').1.clocks = (loopStep interact x).1.clocks := by
  obtain ⟨s, ph⟩ := x
  obtain ⟨s', ph'⟩ := x'
  obtain rfl : ph' = ph := h.agree.2
  have hk : Kernel.Agree n m pids s.kernel s'.kernel := h.agree.1
  cases ph' with
  | top =>
    rw [loopStep_top h.unattended] at hhalt ⊢
    rw [loopStep_top h.unattended', hk.timeUp]
    split_ifs at hhalt ⊢ with ht
    · exact absurd rfl hhalt
    · rw [hk.currentTick]
  | halted => exact absurd rfl hhalt
  | _ => exact h.clocks (by simp) (by simp)

theorem loopStep (h : SameLoop n m pids x x') :
    SameLoop n m pids (loopStep interact x) (loopStep interact x') := by
  have hx : machineOf (FleetOS.loopStep interact x) = FleetOS.machineStep (machineOf x) :=
    machineOf_loopStep h.unattended
  have hs := tableStep h.tables
  rw [← hx] at hs
  refine ⟨?_, hx ▸ tables_machineStep h.tables, fun p hp => hs.pid p ▸ h.pids_mem p hp,
    h.unattended.loopStep, h.unattended'.loopStep, fun htop hhalt => h.clocks_loopStep hhalt htop⟩
  rw [hx, machineOf_loopStep h.unattended']
  exact Kernel.Agree.machineStep h.agree h.tables h.pids_mem

end SameLoop

theorem unattended_iterate (h : x.1.Unattended) (i : ℕ) : ((loopStep interact)^[i] x).1.Unattended := by
  have hstep (x : Statics × Phase) (h : x.1.Unattended) (_ : True) :
      (loopStep interact x).1.Unattended := h.loopStep
  exact Machine.invariant hstep (fun _ _ => trivial) h

theorem machineOf_iterate (h : x.1.Unattended) (i : ℕ) :
    machineOf ((loopStep interact)^[i] x) = machineStep^[i] (machineOf x) := by
  induction i with
  | zero => rfl
  | succ i ih =>
    rw [Function.iterate_succ_apply', Function.iterate_succ_apply',
      machineOf_loopStep (unattended_iterate h i), ih]

/-- How many parts `kernelRun` allows the loop. -/
def Statics.parts (s : Statics) : ℕ :=
  16 * (s.kernel.config.maxTicks - s.kernel.currentTick).toNat + 1

theorem kernelRun_of_halted {s : Statics} (h : ((loopStep interact)^[s.parts] (s, .top)).2 = .halted) :
    kernelRun interact s = some (((loopStep interact)^[s.parts] (s, .top)).1,
      runOut (loopStep interact) (loopLog interact) s.parts (s, .top)) :=
  if_pos h

theorem halted_iterate {s : Statics} (h : s.Unattended) (ht : InTime (s.kernel, .top)) :
    ((loopStep interact)^[s.parts] (s, .top)).2 = .halted := by
  have hm : machineOf ((loopStep interact)^[s.parts] (s, .top)) =
      machineStep^[s.parts] (s.kernel, .top) := machineOf_iterate h s.parts
  refine (congrArg Prod.snd hm).trans (ht.halted ?_)
  simp only [stepsLeft, Statics.parts, Phase.remaining, reduceCtorEq, if_false]
  omega

/-- The loop ends, and two of them leave kernels that agree and print the same. -/
theorem kernelRun_agree (interact : ℤ → Controls → Controls × List CString) {n m : ℕ}
    {pids : Set ℤ} {s s' : Statics} (h : SameLoop n m pids (s, .top) (s', .top))
    (hpos : 0 < s.kernel.config.maxTicks) :
    ∃ r r' : Statics × List CString, kernelRun interact s = some r ∧
      kernelRun interact s' = some r' ∧ Kernel.Agree n m pids r.1.kernel r'.1.kernel ∧
      r'.2 = r.2 := by
  have hk : Kernel.Agree n m pids s.kernel s'.kernel := h.agree.1
  have hparts : s'.parts = s.parts := by
    rw [Statics.parts, Statics.parts, hk.config, hk.currentTick]
  have hend : SameLoop n m pids ((loopStep interact)^[s.parts] (s, .top))
      ((loopStep interact)^[s.parts] (s', .top)) :=
    iterate_rel (fun _ _ h => h.loopStep) s.parts h
  have hout : runOut (loopStep interact) (loopLog interact) s.parts (s', .top) =
      runOut (loopStep interact) (loopLog interact) s.parts (s, .top) :=
    runOut_eq (R := SameLoop n m pids) (fun _ _ h => h.loopStep) (fun _ _ h => h.loopLog) s.parts h
  have hhalt : ((loopStep interact)^[s.parts] (s, .top)).2 = .halted :=
    halted_iterate h.unattended ⟨h.tables, hpos, fun htop => absurd rfl htop⟩
  have hhalt' : ((loopStep interact)^[s'.parts] (s', .top)).2 = .halted := by
    rw [hparts]
    exact hend.agree.2.trans hhalt
  refine ⟨_, _, kernelRun_of_halted hhalt, kernelRun_of_halted hhalt', ?_, ?_⟩
  · rw [hparts]
    exact hend.agree.1
  · rw [hparts]
    exact hout

end loop

/-! ## Simulations -/

theorem Kernel.Agree.kernelGetMetrics {n m : ℕ} {pids : Set ℤ} {k k' : Kernel}
    (h : Kernel.Agree n m pids k k') : kernelGetMetrics k' = kernelGetMetrics k := by
  have hpcbs : (List.range m).map k'.procs = (List.range m).map k.procs :=
    List.map_congr_left fun p hp => h.procs p (List.mem_range.mp hp)
  simp only [FleetOS.kernelGetMetrics, h.procCount, h.procCount', hpcbs, h.config, h.currentTick,
    h.sched.contextSwitches, h.sched.priorityBoostCount]

/-- The same lines, snapshots among them, and the same metrics. -/
def Simulation.SameAs (r r' : Simulation) : Prop := r'.lines = r.lines ∧ r'.metrics = r.metrics

section independence

variable (interact : ℤ → Controls → Controls × List CString) (s s' : Statics)
  (cfg : LaunchConfig) {w : List ProcessSpec}

theorem sameLoop_initStatics (hw : ValidWorkload w) (hi : cfg.interactive = false) :
    ∃ n pids, SameLoop n w.length pids (initStatics s cfg w, .top) (initStatics s' cfg w, .top) := by
  obtain ⟨n, pids, hk, hpids⟩ := sameBoot_kernelInit s.kernel s'.kernel cfg.toKernelConfig hw
  exact ⟨n, pids, ⟨hk, rfl⟩, ⟨tables_kernelInit s.kernel _ hw, fun t ht => by cases ht⟩,
    fun p hp => hpids p hp hp, ⟨hi, rfl⟩, ⟨hi, rfl⟩, fun htop => absurd rfl htop⟩

/-- Two simulations of the same configuration. -/
theorem simulate_same (hw : ValidWorkload w) (hpos : 0 < cfg.maxTicks) (hi : cfg.interactive = false) :
    ∃ r r', simulate interact s cfg w = some r ∧ simulate interact s' cfg w = some r' ∧
      r.SameAs r' := by
  obtain ⟨n, pids, h⟩ := sameLoop_initStatics s s' cfg hw hi
  have hcfg : (initStatics s cfg w).kernel.config = cfg.toKernelConfig := config_kernelInit _ _ w
  obtain ⟨r, r', hr, hr', hk, hlines⟩ := kernelRun_agree interact h (hcfg ▸ hpos)
  refine ⟨_, _, congrArg _ hr, congrArg _ hr', ?_, hk.kernelGetMetrics⟩
  dsimp only
  rw [kernelInitLog_eq s.kernel s'.kernel cfg hw, hlines]

end independence

theorem valid_droneWorkload : ValidWorkload droneWorkload := by
  decide

/-- Whatever the static variables hold, a simulation that is not interactive comes to its end, and
prints and measures the same. So do both halves of `--compare`, of which the second follows the
first. -/
theorem simulation_independent (interact : ℤ → Controls → Controls × List CString)
    (s s' : Statics) {cfg : LaunchConfig} (hpos : 0 < cfg.maxTicks)
    (hi : cfg.interactive = false) :
    (∃ r r', simulate interact s cfg droneWorkload = some r ∧
      simulate interact s' cfg droneWorkload = some r' ∧ r.SameAs r') ∧
    ∃ rr mlfq rr' mlfq', compareModes interact s cfg droneWorkload = some (rr, mlfq) ∧
      simulate interact s' { cfg with schedMode := .rr } droneWorkload = some rr' ∧
      simulate interact s' { cfg with schedMode := .mlfq } droneWorkload = some mlfq' ∧
      rr.SameAs rr' ∧ mlfq.SameAs mlfq' := by
  refine ⟨simulate_same interact s s' cfg valid_droneWorkload hpos hi, ?_⟩
  obtain ⟨rr, rr', hrr, hrr', hsame⟩ := simulate_same interact s s'
    { cfg with schedMode := .rr } valid_droneWorkload hpos hi
  obtain ⟨mlfq, mlfq', hm, hm', hsame'⟩ := simulate_same interact
    (kernelShutdown rr.statics) s' { cfg with schedMode := .mlfq } valid_droneWorkload hpos hi
  refine ⟨rr, mlfq, rr', mlfq', ?_, hrr', hm', hsame, hsame'⟩
  rw [compareModes, hrr, Option.bind_eq_bind, Option.bind_some, hm]
  rfl

/-- After an MLFQ simulation of seven ticks has been set up, against memory that holds zeros. -/
theorem simulation_independent_after_setup :
    let fresh : Statics := ⟨.zero, false, false, ⟨false, false, 0⟩, ⟨0, 0⟩⟩
    let used := initStatics fresh ⟨⟨.mlfq, 7, true, true⟩, false, false⟩ droneWorkload
    let cfg : LaunchConfig := ⟨⟨.rr, 100, true, false⟩, true, false⟩
    let interact : ℤ → Controls → Controls × List CString := fun _ c => (c, [])
    (∃ r r', simulate interact fresh cfg droneWorkload = some r ∧
      simulate interact used cfg droneWorkload = some r' ∧ r.SameAs r') ∧
    ∃ rr mlfq rr' mlfq', compareModes interact fresh cfg droneWorkload = some (rr, mlfq) ∧
      simulate interact used { cfg with schedMode := .rr } droneWorkload = some rr' ∧
      simulate interact used { cfg with schedMode := .mlfq } droneWorkload = some mlfq' ∧
      rr.SameAs rr' ∧ mlfq.SameAs mlfq' := by
  intro fresh used cfg interact
  exact simulation_independent interact fresh used (by decide : 0 < cfg.maxTicks) rfl

end FleetOS
