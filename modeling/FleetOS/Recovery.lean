import FleetOS.WaitForGraph

/-!
# Recovery from deadlocks

A round of recovery kills the victim that the search reports. What the victim held goes to
waiters, which may ask for more, so a round can close new cycles. It activates nobody, though
(`deadlockResolve_active`), and the victim was active, so the rounds are at most as many as the
active processes (`recovery_converges`).
-/

namespace FleetOS

open Relation

variable {g : ResourceGraph}

/-- `deadlock_detect`, then `deadlock_resolve` of the victim, until none is reported; `none` if
that takes more rounds. -/
def recover : ℕ → ResourceGraph → Option ResourceGraph
  | 0, g =>
    match deadlockDetect g with
    | none => some g
    | some _ => none
  | rounds + 1, g =>
    match deadlockDetect g with
    | none => some g
    | some v => recover rounds (deadlockResolve g v).1

/-- The active processes of the table. -/
def activeProcesses (g : ResourceGraph) : List ℤ := pidIndices.filter fun p => g.active p

/-! ## The active processes -/

/-- Only active waiters get a unit, so an allocation to one activates nobody. -/
theorem scanWaiters_active (rid : ℤ) : ∀ (ws : List ℤ) (g : ResourceGraph),
    (scanWaiters rid g ws).graph.active = g.active
  | [], _ => rfl
  | w :: ws, g => by
    rw [scanWaiters]
    split_ifs with hneg hact havail
    · exact scanWaiters_active rid ws g
    · exact scanWaiters_active rid ws g
    · refine (scanWaiters_active rid ws _).trans ?_
      have hw : true = g.active w := by
        simp only [isActive, Bool.not_eq_true', Bool.not_eq_false, decide_eq_true_eq] at hact
        exact hact.2.2.symm
      unfold deadlockAlloc
      split_ifs
      · rfl
      · exact Function.update_eq_self_iff.mpr hw
      · rfl
      · rfl
    · exact scanWaiters_active rid ws g

theorem deadlockWakeWaiters_active (g : ResourceGraph) (rid : ℤ) :
    (deadlockWakeWaiters g rid).1.active = g.active := by
  unfold deadlockWakeWaiters
  split_ifs
  · exact scanWaiters_active rid _ g
  · rfl

theorem wakeAllWaiters_active (g : ResourceGraph) : (wakeAllWaiters g).1.active = g.active :=
  ResourceGraph.wakeAll_keeps (P := fun g' => g'.active = g.active)
    (fun g' rid h => (deadlockWakeWaiters_active g' rid).trans h) rfl

/-- A resolution takes the victim out of the active processes and adds none. -/
theorem deadlockResolve_active (h : g.Rows) {v : ℤ} (hv : validPid v) (p : ℤ) :
    (deadlockResolve g v).1.active p = if p = v then false else g.active p := by
  rw [deadlockResolve, if_neg (not_not.mpr hv), wakeAllWaiters_active]
  exact (ResourceGraph.deadlockCleanupProcess_spec h hv).2.2.1 p

theorem length_activeProcesses_resolve (h : g.Rows) {v : ℤ} (hv : g.active v = true) :
    (activeProcesses (deadlockResolve g v).1).length < (activeProcesses g).length := by
  have hvalid := h.active_valid v hv
  have hlater : activeProcesses (deadlockResolve g v).1 =
      (activeProcesses g).filter fun p => p ≠ v := by
    unfold activeProcesses
    rw [List.filter_filter]
    refine List.filter_congr fun p _ => ?_
    rw [deadlockResolve_active h hvalid]
    by_cases hp : p = v
    · simp [hp]
    · simp [hp]
  have hmem : v ∈ activeProcesses g := by
    simp only [activeProcesses, List.mem_filter, mem_pidIndices]
    exact ⟨hvalid, hv⟩
  rw [hlater]
  exact List.length_filter_lt_length_iff_exists.mpr ⟨v, hmem, by simp⟩

/-! ## The rounds -/

/-- The victim of a search is active. -/
theorem deadlockDetect_active (h : g.Rows) {v : ℤ} (hv : deadlockDetect g = some v) :
    g.active v = true := by
  obtain ⟨q, hw⟩ := (deadlockDetect_eq_some h hv).1.exists_waitsOn
  exact hw.1

theorem recover_stops : ∀ (rounds : ℕ) {g : ResourceGraph}, g.Rows →
    (activeProcesses g).length ≤ rounds →
      ∃ g', recover rounds g = some g' ∧ g'.Rows ∧ deadlockDetect g' = none
  | rounds, g, h, hle => by
    cases hv : deadlockDetect g with
    | none =>
      refine ⟨g, ?_, h, hv⟩
      cases rounds <;> simp only [recover, hv]
    | some v =>
      have hless := length_activeProcesses_resolve h (deadlockDetect_active h hv)
      cases rounds with
      | zero => omega
      | succ rounds =>
        obtain ⟨g', hg', hrest⟩ := recover_stops rounds (h.resolve v) (by omega)
        refine ⟨g', ?_, hrest⟩
        simp only [recover, hv]
        exact hg'

/-- From every reachable graph, recovery stops after at most as many rounds as there were active
processes, and then no cycle is left. -/
theorem recovery_converges (g₀ : ResourceGraph) (calls : List GraphCall) :
    ∃ g', recover (activeProcesses (graphRun g₀ calls)).length (graphRun g₀ calls) = some g' ∧
      ¬∃ p, TransGen (WaitsOn g') p p := by
  obtain ⟨g', hg', hrows, hnone⟩ := recover_stops _ (rows_graphRun g₀ calls) le_rfl
  refine ⟨g', hg', fun hcycle => ?_⟩
  have := (deadlockDetect_isSome hrows).mpr hcycle
  rw [hnone] at this
  exact absurd this (by decide)

end FleetOS
