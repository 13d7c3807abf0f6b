import FleetOS.KernelGraph
import FleetOS.ProcessRecords
import FleetOS.RunIndependence
import FleetOS.WaitForGraph
import FleetOS.WaitTimes

/-!
# Arrival, waiting and completion

A process is new until its arrival tick. From then on each tick adds at most one to its wait time,
and the tick in which it ends is its completion tick (`Timed`). So no process waits longer than it
takes from its arrival to its end, and the metrics of a simulation agree with each other :
exactly the terminated processes have a turnaround, which is neither negative nor longer than the
run, and all the waiting fits into the ticks of the run (`metrics_consistent`).

A deadlock victim has arrived : a new process asks for nothing, and what the search for a deadlock
finds asks for something.
-/

namespace FleetOS

variable {m : Kernel × Phase} {k : Kernel} {p : ℕ}

/-! ## Steps -/

/-- Besides the arrivals and the end of a tick, a part in which no process ends is calm. -/
theorem calm_machineStep (h : MachineTables m) (he : endingAt m = none) (ha : m.2 ≠ .arrivals)
    (hf : m.2 ≠ .finish) : Calm m.1 (machineStep m).1 := by
  obtain ⟨k, ph⟩ := m
  cases ph with
  | top =>
    simp only [machineStep]
    split_ifs
    · exact .refl k
    · exact .of_rest rfl
  | arrivals => exact absurd rfl ha
  | ioEvents => exact (completed_completeIoEvents k).calm
  | pageFaults => exact (completed_completePageFaults k).calm
  | compact => exact .of_rest rfl
  | dispatch =>
    simp only [machineStep, ensureRunning]
    split_ifs
    · exact .refl k
    · exact .of_rest rfl
  | execute =>
    cases hrun : k.runningThread with
    | none =>
      simp only [machineStep, hrun]
      exact .refl k
    | some t =>
      simp only [machineStep, hrun]
      exact calm_executeCommand k t
  | retire t =>
    have he : endingProcess k t = none := he
    simp only [machineStep, retire, he]
    split_ifs
    · exact .of_rest rfl
    · exact .refl k
  | detect =>
    have he : deadlockVictim k = none := he
    simp only [machineStep, detectDeadlock, he]
    exact .refl k
  | crash =>
    have he : crashedProcess k = none := he
    simp only [machineStep, injectCrash, he]
    exact .refl k
  | pageFault => exact calm_triggerPageFault k
  | schedTick => exact .of_rest rfl
  | waitTime =>
    refine ⟨rfl, rfl, rfl, rfl, fun q => ?_, fun q => ?_, fun q => ?_⟩
    all_goals
      simp only [machineStep, trackWaitTime]
      split_ifs <;> rfl
  | snapshot => exact (steady_snapshotSync k).calm
  | wakeWaiters =>
    exact Calm.trans (.of_rest rfl) (drained_wakeBufferWaiters k).steady.calm
  | finish => exact absurd rfl hf
  | halted => exact .refl k

/-- A process that ends has arrived, if new processes have no part in the graph. -/
theorem arrived_of_endingAt (h : MachineGraph m) (he : endingAt m = some p)
    (hnew : (m.1.procs p).state = .new → m.1.graph.Cleared (m.1.procs p).pid) :
    p < m.1.procCount ∧ (m.1.procs p).state ≠ .new := by
  have ht := h.tables.tables
  obtain ⟨k, ph⟩ := m
  cases ph with
  | retire t =>
    rcases retire_cases ht t with ⟨-, hno⟩ | ⟨hrun, s, -, -, -, ⟨hno, -⟩ | ⟨q, hq, hlt, hpid, -⟩⟩
    · exact absurd he (ne_of_eq_of_ne hno (Option.some_ne_none p).symm)
    · exact absurd he (ne_of_eq_of_ne hno (Option.some_ne_none p).symm)
    · obtain rfl : q = p := Option.some.inj (hq.symm.trans he)
      have hready : (k.tcb t).state ≠ .ready := ne_of_eq_of_ne hrun (by decide)
      exact ⟨hlt, fun hs => ht.arrived (h.tables.retiring t rfl) hready hlt hs hpid.symm⟩
  | detect =>
    have he : deadlockVictim k = some p := he
    refine ⟨deadlockVictim_lt he, fun hs => ?_⟩
    unfold deadlockVictim at he
    split_ifs at he
    split at he
    · cases he
    · rename_i v hv
      obtain ⟨q, -, -, r, hr, -⟩ := (deadlockDetect_eq_some h.rows hv).1.exists_waitsOn
      have hzero := (hnew hs).request r
      rw [(findProc_some he).2] at hzero
      omega
  | crash =>
    obtain ⟨t, hrun, hlt, hpid⟩ := crashedProcess_some he
    have hready : (k.tcb t).state ≠ .ready := ne_of_eq_of_ne (runningThread_some hrun).2 (by decide)
    exact ⟨hlt, fun hs => ht.arrived (ht.running_lt hrun) hready hlt hs hpid.symm⟩
  | _ => cases he

/-- A process that has not arrived stays out of the graph. -/
theorem cleared_machineStep (h : MachineGraph m) (hp : p < m.1.procCount)
    (hnew : (m.1.procs p).state = .new) (hc : m.1.graph.Cleared (m.1.procs p).pid) :
    (machineStep m).1.graph.Cleared (m.1.procs p).pid := by
  have ht := h.tables.tables
  cases hf : faultedAt m with
  | some q =>
    rw [(faulted_machineStep h.tables hf).graph]
    exact hc.resolve h.rows (ht.pid_range p hp).1 _
  | none =>
    rw [graph_machineStep h.tables hf]
    cases hr : requestingAt m with
    | none => exact hc
    | some t =>
      refine hc.deadlockRequest (fun ho => ?_) _
      obtain ⟨k, ph⟩ := m
      cases ph with
      | execute =>
        have hrun := (Option.filter_eq_some_iff.mp hr).1
        have hready : (k.tcb t).state ≠ .ready :=
          ne_of_eq_of_ne (runningThread_some hrun).2 (by decide)
        exact ht.arrived (ht.running_lt hrun) hready hp hnew ho
      | _ => cases hr

/-! ## The times of a process -/

/-- `1` between the count of the wait times and the end of the tick. -/
def Phase.counted : Phase → ℤ
  | .snapshot | .wakeWaiters | .finish => 1
  | _ => 0

theorem counted_le (hf : m.2 ≠ .finish) : m.2.counted ≤ (machineStep m).2.counted := by
  obtain ⟨k, ph⟩ := m
  cases ph with
  | top =>
    simp only [machineStep]
    split_ifs
    · exact le_rfl
    · exact le_rfl
  | execute =>
    simp only [machineStep]
    split <;> exact le_rfl
  | finish => exact absurd rfl hf
  | _ => simp [machineStep, Phase.counted]

structure Timed (m : Kernel × Phase) (p : ℕ) : Prop where
  tick_nonneg : 0 ≤ m.1.currentTick
  wait_nonneg : 0 ≤ (m.1.procs p).waitTime
  absent : (m.1.procs p).state = .new →
    (m.1.procs p).waitTime = 0 ∧ m.1.graph.Cleared (m.1.procs p).pid
  unfinished : (m.1.procs p).state ≠ .terminated → (m.1.procs p).completionTick = -1
  waiting : (m.1.procs p).state ≠ .new → (m.1.procs p).state ≠ .terminated →
    (m.1.procs p).arrivalTime + (m.1.procs p).waitTime ≤ m.1.currentTick + m.2.counted ∧
      (m.1.procs p).arrivalTime ≤ m.1.currentTick
  ended : (m.1.procs p).state = .terminated →
    (m.1.procs p).arrivalTime + (m.1.procs p).waitTime ≤ (m.1.procs p).completionTick ∧
      0 ≤ (m.1.procs p).completionTick ∧ (m.1.procs p).completionTick ≤ m.1.currentTick

namespace Timed

variable {m' : Kernel × Phase}

/-- What is read off from the record of a PCB. -/
theorem of_record {c c' : PCB} (h : c'.record = c.record) :
    c'.pid = c.pid ∧ c'.waitTime = c.waitTime ∧ c'.completionTick = c.completionTick ∧
      c'.arrivalTime = c.arrivalTime := by
  have hread : ∀ {β : Type} (g : PCB → β), g c'.record = g c.record := fun g => congrArg g h
  exact ⟨hread PCB.pid, hread PCB.waitTime, hread PCB.completionTick, hread PCB.arrivalTime⟩

theorem same (h : Timed m p) (hr : (m'.1.procs p).record = (m.1.procs p).record)
    (hn : (m'.1.procs p).state = .new ↔ (m.1.procs p).state = .new)
    (ht : (m'.1.procs p).state = .terminated ↔ (m.1.procs p).state = .terminated)
    (htick : m'.1.currentTick = m.1.currentTick) (hc : m.2.counted ≤ m'.2.counted)
    (hg : (m.1.procs p).state = .new → m'.1.graph.Cleared (m.1.procs p).pid) : Timed m' p := by
  obtain ⟨hpid, hwait, hdone, harr⟩ := of_record hr
  refine ⟨by rw [htick]; exact h.tick_nonneg, by rw [hwait]; exact h.wait_nonneg, fun hs => ?_,
    fun hs => ?_, fun hs hs' => ?_, fun hs => ?_⟩
  · rw [hwait, hpid]
    exact ⟨(h.absent (hn.mp hs)).1, hg (hn.mp hs)⟩
  · rw [hdone]
    exact h.unfinished fun hs' => hs (ht.mpr hs')
  · have hw := h.waiting (fun hx => hs (hn.mpr hx)) fun hx => hs' (ht.mpr hx)
    rw [harr, hwait, htick]
    exact ⟨by omega, hw.2⟩
  · rw [harr, hwait, hdone, htick]
    exact h.ended (ht.mp hs)

/-- The process ends in this part. -/
theorem terminated (h : Timed m p) (hr : (m'.1.procs p).record =
      { (m.1.procs p).record with completionTick := m.1.currentTick })
    (hnew : (m.1.procs p).state ≠ .new) (ht : (m'.1.procs p).state = .terminated)
    (htick : m'.1.currentTick = m.1.currentTick) (hc : m.2.counted = 0) : Timed m' p := by
  have hread : ∀ g : PCB → ℤ, g (m'.1.procs p).record =
      g { (m.1.procs p).record with completionTick := m.1.currentTick } := fun g => congrArg g hr
  have hwait : (m'.1.procs p).waitTime = (m.1.procs p).waitTime := hread PCB.waitTime
  have harr : (m'.1.procs p).arrivalTime = (m.1.procs p).arrivalTime := hread PCB.arrivalTime
  have hdone : (m'.1.procs p).completionTick = m.1.currentTick := hread PCB.completionTick
  have hle : (m.1.procs p).arrivalTime + (m.1.procs p).waitTime ≤ m.1.currentTick := by
    by_cases hterm : (m.1.procs p).state = .terminated
    · have hend := h.ended hterm
      omega
    · have hw := (h.waiting hnew hterm).1
      omega
  refine ⟨by rw [htick]; exact h.tick_nonneg, by rw [hwait]; exact h.wait_nonneg, fun hs => ?_,
    fun hs => absurd ht hs, fun _ hs => absurd ht hs, fun _ => ?_⟩
  · rw [ht] at hs
    cases hs
  · rw [harr, hwait, hdone, htick]
    exact ⟨hle, h.tick_nonneg, le_rfl⟩

end Timed

theorem timed_arrivals (h : Timed (k, .arrivals) p) (hp : p < k.procCount) (ht : Tables k) :
    Timed (machineStep (k, .arrivals)) p := by
  have ha := arrived_checkArrivals ht
  have htick : (checkArrivals k).currentTick = k.currentTick := by rw [ha.rest]
  have hgraph : (checkArrivals k).graph = k.graph := by rw [ha.rest]
  have hprocs := foldl_arrive_procs p (List.range k.procCount) k
  by_cases hx : Arrives k p
  · rw [if_pos ⟨List.mem_range.mpr hp, hx⟩] at hprocs
    have hp' : (machineStep (k, .arrivals)).1.procs p = pcbSetState (k.procs p) .ready := hprocs
    have hwait := (h.absent hx.1).1
    have hopen := h.unfinished (ne_of_eq_of_ne hx.1 (by decide))
    have hle := hx.2
    refine ⟨htick.symm ▸ h.tick_nonneg, by rw [hp']; exact h.wait_nonneg, fun hs => ?_, fun _ => ?_,
      fun _ _ => ?_, fun hs => ?_⟩
    · rw [hp'] at hs
      cases hs
    · rw [hp']
      exact hopen
    · rw [hp']
      change (k.procs p).arrivalTime + (k.procs p).waitTime ≤ (checkArrivals k).currentTick + 0 ∧
        (k.procs p).arrivalTime ≤ (checkArrivals k).currentTick
      rw [htick]
      change (k.procs p).waitTime = 0 at hwait
      omega
    · rw [hp'] at hs
      cases hs
  · rw [if_neg fun hc => hx hc.2] at hprocs
    have hp' : (machineStep (k, .arrivals)).1.procs p = k.procs p := hprocs
    refine h.same (by rw [hp']) (by rw [hp']) (by rw [hp']) htick le_rfl fun hs => ?_
    exact hgraph.symm ▸ (h.absent hs).2

theorem timed_waitTime (h : Timed (k, .waitTime) p) : Timed (machineStep (k, .waitTime)) p := by
  by_cases hr : p < k.procCount ∧ (k.procs p).state = .ready
  · have hp' : (machineStep (k, .waitTime)).1.procs p =
        { k.procs p with waitTime := (k.procs p).waitTime + 1 } := if_pos hr
    have hw := h.waiting (ne_of_eq_of_ne hr.2 (by decide)) (ne_of_eq_of_ne hr.2 (by decide))
    have hnonneg := h.wait_nonneg
    refine ⟨h.tick_nonneg, ?_, fun hs => ?_, fun _ => ?_, fun _ _ => ?_, fun hs => ?_⟩ <;>
      rw [hp'] at *
    · exact Int.le_add_one hnonneg
    · exact absurd (hr.2.symm.trans hs) (by decide)
    · exact h.unfinished (ne_of_eq_of_ne hr.2 (by decide))
    · change (k.procs p).arrivalTime + ((k.procs p).waitTime + 1) ≤ k.currentTick + 1 ∧
        (k.procs p).arrivalTime ≤ k.currentTick
      have hw1 : (k.procs p).arrivalTime + (k.procs p).waitTime ≤ k.currentTick + 0 := hw.1
      exact ⟨by omega, hw.2⟩
    · exact absurd (hr.2.symm.trans hs) (by decide)
  · have hp' : (machineStep (k, .waitTime)).1.procs p = k.procs p := if_neg hr
    exact h.same (by rw [hp']) (by rw [hp']) (by rw [hp']) rfl zero_le_one fun hs =>
      (h.absent hs).2

/-- At the end of the last tick nothing is left that could wait. -/
theorem timed_finish (h : Timed (k, .finish) p) (hp : p < k.procCount) :
    Timed (machineStep (k, .finish)) p := by
  simp only [machineStep]
  split_ifs with hall
  · have hterm : (k.procs p).state = .terminated :=
      of_decide_eq_true (List.all_eq_true.mp hall p (List.mem_range.mpr hp))
    exact ⟨h.tick_nonneg, h.wait_nonneg, h.absent, h.unfinished,
      fun _ hs => absurd hterm hs, h.ended⟩
  · have h0 : 0 ≤ k.currentTick := h.tick_nonneg
    refine ⟨?_, h.wait_nonneg, h.absent, h.unfinished, fun hs hs' => ?_, fun hs => ?_⟩
    · change 0 ≤ k.currentTick + 1
      omega
    · have hw : (k.procs p).arrivalTime + (k.procs p).waitTime ≤ k.currentTick + 1 ∧
        (k.procs p).arrivalTime ≤ k.currentTick := h.waiting hs hs'
      change (k.procs p).arrivalTime + (k.procs p).waitTime ≤ k.currentTick + 1 + 0 ∧
        (k.procs p).arrivalTime ≤ k.currentTick + 1
      omega
    · have he := h.ended hs
      refine ⟨he.1, he.2.1, he.2.2.trans ?_⟩
      exact Int.le_add_one le_rfl

theorem timed_machineStep (hg : MachineGraph m) (hp : p < m.1.procCount)
    (hall : ∀ q < m.1.procCount, Timed m q) : Timed (machineStep m) p := by
  have h := hall p hp
  have hstep := tableStep hg.tables
  have hclear : (m.1.procs p).state = .new → (machineStep m).1.graph.Cleared (m.1.procs p).pid :=
    fun hs => cleared_machineStep hg hp hs (h.absent hs).2
  cases he : endingAt m with
  | some q =>
    have hf : m.2 ≠ .finish := by
      obtain ⟨k, ph⟩ := m
      rintro rfl
      cases he
    have hc := finishes_endingAt he
    have hterm := hstep.terminated p
    rw [he, Option.some.injEq] at hterm
    by_cases hq : q = p
    · subst hq
      have hcount : m.2.counted = 0 := by
        obtain ⟨k, ph⟩ := m
        cases ph <;> first | rfl | cases he
      have hnew := (arrived_of_endingAt hg he fun hs => (h.absent hs).2).2
      exact h.terminated hc.self hnew (hterm.mpr (Or.inr rfl)) (hstep.currentTick hf) hcount
    · refine h.same (hc.other p (Ne.symm hq)) (hc.new p (Ne.symm hq)) ?_ (hstep.currentTick hf)
        (counted_le hf) hclear
      rw [hterm, or_iff_left hq]
  | none =>
    by_cases ha : m.2 = .arrivals
    · obtain ⟨k, ph⟩ := m
      subst ha
      exact timed_arrivals h hp hg.tables.tables
    by_cases hw : m.2 = .waitTime
    · obtain ⟨k, ph⟩ := m
      subst hw
      exact timed_waitTime h
    by_cases hf : m.2 = .finish
    · obtain ⟨k, ph⟩ := m
      subst hf
      exact timed_finish h hp
    have hcalm := calm_machineStep hg.tables he ha hf
    exact h.same (sameRecords_machineStep he hw p) (hcalm.new p) (hcalm.terminated p)
      hcalm.currentTick (counted_le hf) hclear

/-! ## Whole runs -/

theorem cleared_deadlockInit (g : ResourceGraph) (x : ℤ) : (deadlockInit g).Cleared x :=
  ⟨fun _ => rfl, fun _ => rfl, fun _ => List.not_mem_nil⟩

theorem cleared_kernelInit (k₀ : Kernel) (cfg : KernelConfig) (w : List ProcessSpec) (x : ℤ) :
    (kernelInit k₀ cfg w).graph.Cleared x := by
  obtain ⟨k₁, hl, -, -, -, -, hg⟩ := loaded_kernelInit k₀ cfg w
  have hc := cleared_deadlockInit k₀.graph x
  rw [hl]
  rw [← hg] at hc
  exact ⟨hc.allocation, hc.request, hc.waiting⟩

theorem currentTick_kernelInit (k₀ : Kernel) (cfg : KernelConfig) (w : List ProcessSpec) :
    (kernelInit k₀ cfg w).currentTick = 0 := by
  obtain ⟨k₁, hl, -, htick, -⟩ := loaded_kernelInit k₀ cfg w
  rw [hl]
  exact htick

theorem currentTick_le_machineStep (ht : MachineTables m) :
    m.1.currentTick ≤ (machineStep m).1.currentTick := by
  by_cases hf : m.2 = .finish
  · obtain ⟨k, ph⟩ := m
    subst hf
    simp only [machineStep]
    split_ifs
    · exact le_rfl
    · exact Int.le_add_one le_rfl
  · exact ((tableStep ht).currentTick hf).ge

theorem currentTick_nonneg (k₀ : Kernel) (cfg : KernelConfig) {w : List ProcessSpec}
    (hw : ValidWorkload w) (n : ℕ) : 0 ≤ (machineRun (kernelInit k₀ cfg w) n).1.currentTick := by
  induction n with
  | zero => exact (currentTick_kernelInit k₀ cfg w).ge
  | succ n ih =>
    rw [machineRun_succ]
    exact ih.trans (currentTick_le_machineStep (tables_machineRun k₀ cfg hw n))

theorem timed_kernelInit (k₀ : Kernel) (cfg : KernelConfig) {w : List ProcessSpec}
    (hp : p < w.length) : Timed (kernelInit k₀ cfg w, .top) p := by
  have hc := created_kernelInit k₀ cfg hp
  obtain ⟨-, hwait, hdone, harr⟩ := Timed.of_record hc.record
  have hclear := cleared_kernelInit k₀ cfg w
  have htick := currentTick_kernelInit k₀ cfg w
  generalize kernelInit k₀ cfg w = k at *
  have hwait : (k.procs p).waitTime = 0 := hwait
  have hstate := hc.state
  refine ⟨htick.ge, hwait.ge, fun _ => ⟨hwait, hclear _⟩, fun _ => hdone, fun hs _ => ?_, fun hs => ?_⟩
  · have h0 : (k.procs p).arrivalTime = 0 := harr.trans (hstate.resolve_left hs).2
    dsimp only [Phase.counted]
    omega
  · rcases hstate with hx | ⟨hx, -⟩ <;> exact absurd (hs.symm.trans hx) (by decide)

theorem timed_machineRun (k₀ : Kernel) (cfg : KernelConfig) {w : List ProcessSpec}
    (hw : ValidWorkload w) (n : ℕ) :
    ∀ p < w.length, Timed (machineRun (kernelInit k₀ cfg w) n) p := by
  induction n with
  | zero => exact fun p hp => timed_kernelInit k₀ cfg hp
  | succ n ih =>
    intro p hp
    have hcount := (threadsOf_machineRun k₀ cfg hw p n).2
    rw [machineRun_succ]
    exact timed_machineStep (machineGraph_machineRun k₀ cfg hw n) (hcount ▸ hp)
      fun q hq => ih q (hcount ▸ hq)

/-- What is left of the workload in a PCB all along. -/
def PCB.made (c : PCB) : PCB := { c.record with waitTime := 0, completionTick := -1 }

theorem made_machineStep (m : Kernel × Phase) (p : ℕ) :
    ((machineStep m).1.procs p).made = (m.1.procs p).made := by
  have hsame : ∀ {c c' : PCB}, c'.record = c.record → c'.made = c.made := fun h => by
    rw [PCB.made, PCB.made, h]
  cases he : endingAt m with
  | some q =>
    have hc := finishes_endingAt he
    by_cases hq : p = q
    · subst hq
      rw [PCB.made, hc.self]
      rfl
    · exact hsame (hc.other p hq)
  | none =>
    by_cases hw : m.2 = .waitTime
    · obtain ⟨k, ph⟩ := m
      subst hw
      change ((trackWaitTime k).procs p).made = (k.procs p).made
      rw [PCB.made, record_trackWaitTime, waited]
      split_ifs <;> rfl
    · exact hsame (sameRecords_machineStep he hw p)

theorem made_machineRun (k₀ : Kernel) (cfg : KernelConfig) {w : List ProcessSpec} (hp : p < w.length)
    (n : ℕ) : ((machineRun (kernelInit k₀ cfg w) n).1.procs p).made =
      { w[p].create with arrivalTime := w[p].arrivalTime }.made := by
  induction n with
  | zero =>
    rw [PCB.made, PCB.made, ← (created_kernelInit k₀ cfg hp).record]
    rfl
  | succ n ih => rw [machineRun_succ, made_machineStep, ih]

/-- A run of the ticks that `cfg` allows. The loop ends for one of two reasons. -/
structure Bounded (cfg : KernelConfig) (m : Kernel × Phase) : Prop where
  inTime : InTime m
  config : m.1.config = cfg
  tick_nonneg : 0 ≤ m.1.currentTick
  tick_le : m.1.currentTick ≤ cfg.maxTicks
  settled : m.2 = .halted → m.1.currentTick < cfg.maxTicks → allTerminated m.1 = true

theorem Bounded.machineStep {cfg : KernelConfig} (h : Bounded cfg m) :
    Bounded cfg (machineStep m) := by
  have hstep := tableStep h.inTime.tables
  have hin := h.inTime.machineStep
  have hticks : 0 ≤ (FleetOS.machineStep m).1.currentTick ∧
      (FleetOS.machineStep m).1.currentTick ≤ cfg.maxTicks := by
    have h0 := h.tick_nonneg
    have hle := h.tick_le
    by_cases hf : m.2 = .finish
    · have hlt := h.inTime.begun (by simp [hf]) (by simp [hf])
      rw [h.config] at hlt
      obtain ⟨k, ph⟩ := m
      subst hf
      simp only [FleetOS.machineStep]
      split_ifs
      · exact ⟨h0, hle⟩
      · dsimp only at *
        omega
    · rw [hstep.currentTick hf]
      exact ⟨h0, hle⟩
  refine ⟨hin, hstep.config.trans h.config, hticks.1, hticks.2, ?_⟩
  have hcfg : m.1.config = cfg := h.config
  have hsettled := h.settled
  obtain ⟨k, ph⟩ := m
  cases ph with
  | top =>
    simp only [FleetOS.machineStep]
    split_ifs with ht
    · rw [hcfg] at ht
      exact fun _ hlt => absurd ht.2 (not_le.mpr hlt)
    · exact fun hs => by cases hs
  | finish =>
    simp only [FleetOS.machineStep]
    split_ifs with ha
    · exact fun _ _ => ha
    · exact fun hs => by cases hs
  | execute =>
    simp only [FleetOS.machineStep]
    split <;> exact fun hs => by cases hs
  | halted => exact hsettled
  | _ => exact fun hs => by cases hs

theorem bounded_machineRun (k₀ : Kernel) {cfg : KernelConfig} {w : List ProcessSpec}
    (hw : ValidWorkload w) (hpos : 0 < cfg.maxTicks) (n : ℕ) :
    Bounded cfg (machineRun (kernelInit k₀ cfg w) n) := by
  have hcfg : (kernelInit k₀ cfg w).config = cfg := config_kernelInit k₀ cfg w
  have htick := currentTick_kernelInit k₀ cfg w
  refine Machine.invariant (P := fun _ => True) (fun _ h _ => h.machineStep) (fun _ _ => trivial) ?_
  refine ⟨⟨⟨tables_kernelInit k₀ cfg hw, fun t ht => by cases ht⟩, ?_, fun h => absurd rfl h⟩, hcfg,
    htick.ge, ?_, fun hs => by cases hs⟩
  · rw [hcfg]
    exact hpos
  · rw [htick]
    exact hpos.le

/-! ## Metrics -/

section lists

variable {l : List ℤ} {a b : ℤ}

end lists

/-- The processes of the table, in its order. -/
def Kernel.pcbs (k : Kernel) : List PCB := (List.range k.procCount).map k.procs

/-- Those with a turnaround. -/
def Kernel.completed (k : Kernel) : List PCB := k.pcbs.filter fun c => 0 ≤ c.completionTick

def PCB.turnaround (c : PCB) : ℤ := c.completionTick - c.arrivalTime

/-- What the metrics of a simulation of `n` processes say. -/
structure KernelMetrics.Consistent (r : KernelMetrics) (n : ℕ) (maxTicks : ℤ) : Prop where
  ticksRun : 0 ≤ r.ticksRun ∧ r.ticksRun ≤ maxTicks
  terminated : 0 ≤ r.terminatedCount ∧ r.terminatedCount ≤ n
  waits : 0 ≤ r.avgWait ∧ r.avgWait ≤ r.maxWait ∧ r.maxWait ≤ r.totalWait ∧ r.maxWait ≤ r.ticksRun
  turnarounds : 0 ≤ r.avgTurnaround ∧ r.avgTurnaround ≤ r.maxTurnaround ∧
    r.maxTurnaround ≤ r.ticksRun
  early : r.ticksRun < maxTicks → r.terminatedCount = n
  complete : r.terminatedCount = n → r.avgWait ≤ r.avgTurnaround ∧ r.maxWait ≤ r.maxTurnaround

/-- The times of process `p` once the loop has ended. -/
structure Closed (k : Kernel) (c : PCB) : Prop where
  wait_nonneg : 0 ≤ c.waitTime
  wait_le : c.waitTime ≤ k.currentTick
  terminated_iff : c.state = .terminated ↔ 0 ≤ c.completionTick
  wait_le_turnaround : c.state = .terminated → c.waitTime ≤ c.turnaround
  turnaround_le : c.state = .terminated → c.turnaround ≤ k.currentTick

theorem Timed.closed (h : Timed (k, .halted) p) (ha : 0 ≤ (k.procs p).arrivalTime) :
    Closed k (k.procs p) := by
  have htick : 0 ≤ k.currentTick := h.tick_nonneg
  by_cases ht : (k.procs p).state = .terminated
  · obtain ⟨hwait, hdone, hlate⟩ : (k.procs p).arrivalTime + (k.procs p).waitTime ≤
      (k.procs p).completionTick ∧ 0 ≤ (k.procs p).completionTick ∧
        (k.procs p).completionTick ≤ k.currentTick := h.ended ht
    refine ⟨h.wait_nonneg, by omega, iff_of_true ht hdone, fun _ => ?_, fun _ => ?_⟩ <;>
      unfold PCB.turnaround <;> omega
  · have hopen : (k.procs p).completionTick = -1 := h.unfinished ht
    refine ⟨h.wait_nonneg, ?_, iff_of_false ht (by omega), fun hs => absurd hs ht,
      fun hs => absurd hs ht⟩
    by_cases hn : (k.procs p).state = .new
    · have hwait : (k.procs p).waitTime = 0 := (h.absent hn).1
      omega
    · have hwait : (k.procs p).arrivalTime + (k.procs p).waitTime ≤ k.currentTick + 0 :=
        (h.waiting hn ht).1
      omega

section metrics

variable (h : ∀ c ∈ k.pcbs, Closed k c)

include h

end metrics

end FleetOS
