import FleetOS.ClearedRows
import FleetOS.MachineSteps

/-!
# The resource graph in a run

The graph changes where a thread asks for a resource and where a process falls victim to a
deadlock or crashes, and nowhere else (`graph_machineStep`). So it keeps its rows, and only
resources that exist have waiters, in every state of a run (`machineGraph_machineRun`).
-/

namespace FleetOS

/-- The thread that asks for a resource in this part of a tick. -/
def requestingAt : Kernel × Phase → Option ℕ
  | (k, .execute) => k.runningThread.filter fun t =>
      threadCurrentCommand (k.tcb t) = .acquireResource ∧ k.config.deadlockEnabled
  | _ => none

theorem faulted_machineStep {m : Kernel × Phase} (h : MachineTables m) {p : ℕ}
    (hf : faultedAt m = some p) : Faulted m.1 (machineStep m).1 p := by
  obtain ⟨k, ph⟩ := m
  cases ph with
  | detect => exact faulted_detectDeadlock h.tables hf
  | crash => exact faulted_injectCrash h.tables hf
  | _ => cases hf

/-- A command that is not a request does not reach the graph. -/
theorem graph_executeCommand (k : Kernel) (t : ℕ) :
    (executeCommand k t).graph =
      if threadCurrentCommand (k.tcb t) = .acquireResource ∧ k.config.deadlockEnabled then
        (deadlockRequest k.graph (k.tcb t).ownerPid (wantedResource k (k.tcb t).ownerPid)).1
      else k.graph := by
  unfold executeCommand
  cases threadCurrentCommand (k.tcb t) with
  | compute => rfl
  | produceData => exact (steady_executeProduce k t).graph
  | consumeData => exact (steady_executeConsume k t).graph
  | acquireResource =>
    rw [(steady_executeAcquire k t).graph]
    simp only [true_and]
  | ioWrite =>
    obtain ⟨k₁, fs, hs, he⟩ := executeIoWrite_eq k t
    have hg : (executeIoWrite k t).graph = k.graph := by
      rw [he, registerIo_rest]
      exact hs.graph
    exact hg

/-- A process that ends normally is not taken out of the graph. -/
theorem graph_of_endingAt {m : Kernel × Phase} (h : MachineTables m) {p : ℕ}
    (he : endingAt m = some p) (hf : faultedAt m = none) : (machineStep m).1.graph = m.1.graph := by
  obtain ⟨k, ph⟩ := m
  cases ph with
  | retire t =>
    rcases retire_cases h.tables t with
      ⟨hx, -⟩ | ⟨-, s, -, -, -, ⟨-, hx⟩ | ⟨q, -, -, -, -, -, hg, -⟩⟩
    · rw [machineStep, hx]
    · rw [machineStep, hx]
    · exact hg
  | detect => exact absurd he (ne_of_eq_of_ne hf (Option.some_ne_none p).symm)
  | crash => exact absurd he (ne_of_eq_of_ne hf (Option.some_ne_none p).symm)
  | _ => cases he

/-- Where no process falls victim and none crashes, the graph changes by a request only. -/
theorem graph_machineStep {m : Kernel × Phase} (h : MachineTables m) (hf : faultedAt m = none) :
    (machineStep m).1.graph =
      match requestingAt m with
      | none => m.1.graph
      | some t => (deadlockRequest m.1.graph (m.1.tcb t).ownerPid
          (wantedResource m.1 (m.1.tcb t).ownerPid)).1 := by
  cases he : endingAt m with
  | some p =>
    have hr : requestingAt m = none := by
      obtain ⟨k, ph⟩ := m
      cases ph <;> first | rfl | cases he
    rw [hr]
    exact graph_of_endingAt h he hf
  | none =>
  cases hb : m.2.busy with
  | false =>
    rw [(quiet_machineStep h he hb).graph]
    obtain ⟨k, ph⟩ := m
    cases ph <;> first | rfl | cases hb
  | true =>
  obtain ⟨k, ph⟩ := m
  cases ph with
  | ioEvents => exact (completed_completeIoEvents k).graph
  | pageFaults => exact (completed_completePageFaults k).graph
  | compact => rfl
  | execute =>
    cases hr : k.runningThread with
    | none => simp only [machineStep, requestingAt, hr, Option.filter_none]
    | some t =>
      simp only [machineStep, requestingAt, hr, graph_executeCommand, Option.filter_some,
        decide_eq_true_eq]
      split_ifs <;> rfl
  | pageFault => exact (triggerPageFault_keeps k).1
  | wakeWaiters => exact (drained_wakeBufferWaiters k).steady.graph
  | _ => cases hb

/-! ## Runs -/

theorem machineRun_succ (k : Kernel) (n : ℕ) : machineRun k (n + 1) = machineStep (machineRun k n) :=
  Function.iterate_succ_apply' machineStep n (k, .top)

/-- What is true of the graph in every state of a run. -/
structure MachineGraph (m : Kernel × Phase) : Prop where
  tables : MachineTables m
  rows : m.1.graph.Rows
  waiters : m.1.graph.WaitersValid

theorem machineGraph_machineStep {m : Kernel × Phase} (h : MachineGraph m) :
    MachineGraph (machineStep m) := by
  cases hf : faultedAt m with
  | some p =>
    have hg := (faulted_machineStep h.tables hf).graph
    refine ⟨tables_machineStep h.tables, ?_, ?_⟩ <;> rw [hg]
    · exact h.rows.resolve _
    · exact h.waiters.resolve h.rows _
  | none =>
    have hg := graph_machineStep h.tables hf
    refine ⟨tables_machineStep h.tables, ?_, ?_⟩ <;> rw [hg] <;> cases requestingAt m
    · exact h.rows
    · exact h.rows.deadlockRequest _ _
    · exact h.waiters
    · exact h.waiters.deadlockRequest _ _

theorem machineGraph_kernelInit (k₀ : Kernel) (cfg : KernelConfig) {w : List ProcessSpec}
    (hw : ValidWorkload w) : MachineGraph (kernelInit k₀ cfg w, .top) := by
  obtain ⟨k₁, hl, -, -, -, -, hg⟩ := loaded_kernelInit k₀ cfg w
  have hgraph : (kernelInit k₀ cfg w).graph =
      { k₁.graph with priority := (kernelInit k₀ cfg w).graph.priority } := by
    conv_lhs => rw [hl]
  refine ⟨⟨tables_kernelInit k₀ cfg hw, fun t h => by cases h⟩, ?_, fun r _ => ?_⟩
  · refine (ResourceGraph.rows_deadlockInit k₀.graph).congr ?_ ?_ ?_ <;> rw [hgraph, hg]
  · rw [hgraph, hg]
    rfl

theorem machineGraph_machineRun (k₀ : Kernel) (cfg : KernelConfig) {w : List ProcessSpec}
    (hw : ValidWorkload w) (n : ℕ) : MachineGraph (machineRun (kernelInit k₀ cfg w) n) :=
  Machine.invariant (P := fun _ => True) (fun _ h _ => machineGraph_machineStep h)
    (fun _ _ => trivial) (machineGraph_kernelInit k₀ cfg hw)

end FleetOS
