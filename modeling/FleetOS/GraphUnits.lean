import FleetOS.Counting
import FleetOS.GraphRows

/-!
# One unit of each resource

Each resource has one unit, which is free or held by one process (`ResourceGraph.Units`). An
allocation moves a free unit into a row, a release moves it back (`Units.of_move`), and the
clean-up of a process frees what its row holds. So the units are conserved by every call
(`units_graphCall`) and no two processes hold the same resource (`Units.holder_unique`).

The wait queues do not count : a stale entry can receive a unit, but only a free one.
-/

namespace FleetOS

namespace ResourceGraph

/-- The units of a resource that processes hold. -/
def heldUnits (g : ResourceGraph) (rid : ℤ) : ℤ :=
  (pidIndices.map fun pid => g.allocation pid rid).sum

/-- The unit of each resource is free or in one row. -/
structure Units (g : ResourceGraph) : Prop where
  rows : g.Rows
  conserved : ∀ r, validRid r → g.available r + g.heldUnits r = 1
  available_nonneg : ∀ r, validRid r → 0 ≤ g.available r

/-- Writing one row changes the units held by the difference at that row. -/
theorem heldUnits_change {g g' : ResourceGraph} {pid : ℤ} (hp : validPid pid) (rid : ℤ)
    (h : ∀ p, p ≠ pid → g'.allocation p rid = g.allocation p rid) :
    g'.heldUnits rid + g.allocation pid rid = g.heldUnits rid + g'.allocation pid rid :=
  Counting.sum_map_change nodup_pidIndices (mem_pidIndices.mpr hp) fun p _ hne => h p hne

namespace Units

variable {g g' : ResourceGraph}

/-- No resource is held by two processes. -/
theorem holder_unique (h : g.Units) {p q r : ℤ} (hp : 0 < g.allocation p r)
    (hq : 0 < g.allocation q r) : p = q := by
  obtain ⟨hr, hpa⟩ := h.rows.allocation_active p r (by omega)
  obtain ⟨-, hqa⟩ := h.rows.allocation_active q r (by omega)
  by_contra hne
  have hsum : g.allocation p r + g.allocation q r ≤ g.heldUnits r :=
    Counting.add_le_sum_map (mem_pidIndices.mpr (h.rows.active_valid p hpa))
      (mem_pidIndices.mpr (h.rows.active_valid q hqa)) hne fun x _ => h.rows.allocation_nonneg x r
  have := h.conserved r hr
  have := h.available_nonneg r hr
  omega

theorem heldUnits_nonneg (h : g.Units) (r : ℤ) : 0 ≤ g.heldUnits r := by
  refine List.sum_nonneg fun v hv => ?_
  obtain ⟨p, -, rfl⟩ := List.mem_map.mp hv
  exact h.rows.allocation_nonneg p r

theorem available_le (h : g.Units) (r : ℤ) (hr : validRid r) : g.available r ≤ 1 := by
  have := h.conserved r hr
  have := h.heldUnits_nonneg r
  omega

/-- What is not free is held. -/
theorem exists_holder (h : g.Units) {r : ℤ} (hr : validRid r) (hav : g.available r ≤ 0) :
    ∃ p, 0 < g.allocation p r := by
  by_contra! hnone
  have hzero : g.heldUnits r = 0 := by
    refine List.sum_eq_zero fun v hv => ?_
    obtain ⟨p, -, rfl⟩ := List.mem_map.mp hv
    exact le_antisymm (hnone p) (h.rows.allocation_nonneg p r)
  have := h.conserved r hr
  omega

theorem congr (h : g.Units) (ha : g'.allocation = g.allocation) (hr : g'.request = g.request)
    (hact : g'.active = g.active) (hav : g'.available = g.available) : g'.Units := by
  refine ⟨h.rows.congr ha hr hact, ?_, ?_⟩
  · simpa only [heldUnits, ha, hav] using h.conserved
  · simpa only [hav] using h.available_nonneg

/-- What leaves one row is free afterwards, and the other way round. -/
theorem of_move (h : g.Units) (hrows : g'.Rows) {pid : ℤ} (hp : validPid pid)
    (hother : ∀ p r, p ≠ pid → g'.allocation p r = g.allocation p r)
    (hmove : ∀ r, g'.available r + g'.allocation pid r = g.available r + g.allocation pid r)
    (h0 : ∀ r, validRid r → 0 ≤ g'.available r) : g'.Units := by
  refine ⟨hrows, fun r hr => ?_, h0⟩
  have hheld := heldUnits_change hp r fun p hne => hother p r hne
  have := h.conserved r hr
  have := hmove r
  omega

theorem granted (h : g.Units) {pid rid : ℤ} (hp : validPid pid) (hr : validRid rid)
    (hav : 0 < g.available rid) : (g.granted pid rid).Units := by
  refine h.of_move (h.rows.granted hp hr) hp (fun p r hne => ?_) (fun r => ?_) fun r hrid => ?_
  all_goals dsimp only [ResourceGraph.granted]
  · rw [setEntry_apply, if_neg fun he => hne he.1]
  · rw [setEntry_apply, Function.update_apply]
    split_ifs with h1 h2 h2
    · rw [h1]
      ring
    · exact absurd ⟨rfl, h1⟩ h2
    · exact absurd h2.2 h1
    · rfl
  · rw [Function.update_apply]
    split_ifs
    · omega
    · exact h.available_nonneg r hrid

theorem alloc (h : g.Units) (pid rid : ℤ) : (deadlockAlloc g pid rid).1.Units := by
  rcases deadlockAlloc_cases g pid rid with he | ⟨hp, hr, hav, he⟩
  · rw [he]
    exact h
  · rw [he]
    exact h.granted hp hr hav

theorem requested (h : g.Units) {pid rid : ℤ} (hp : validPid pid) (hr : validRid rid)
    (hheld : g.allocation pid rid ≤ 0) : (g.requested pid rid).Units :=
  ⟨h.rows.requested hp hr hheld, h.conserved, h.available_nonneg⟩

theorem deadlockRequest (h : g.Units) (pid rid : ℤ) : (deadlockRequest g pid rid).1.Units := by
  rcases deadlockRequest_cases g pid rid with
    he | ⟨hp, hr, hheld, ⟨hav, he⟩ | ⟨-, -, he⟩ | ⟨-, -, he⟩⟩
  · rw [he]
    exact h
  · rw [he]
    exact (h.requested hp hr hheld).granted hp hr hav
  · rw [he]
    exact h.requested hp hr hheld
  · rw [he]
    exact (h.requested hp hr hheld).congr rfl rfl rfl rfl

theorem release (h : g.Units) (pid rid : ℤ) : (deadlockRelease g pid rid).Units := by
  have hrows := h.rows.release pid rid
  unfold deadlockRelease at hrows ⊢
  split_ifs at hrows ⊢ with hp hr hheld
  · exact h
  rotate_left
  · exact h
  · exact h
  · refine h.of_move hrows hp (fun p r hne => ?_) (fun r => ?_) fun r hrid => ?_
    all_goals dsimp only
    · rw [setEntry_apply, if_neg fun he => hne he.1]
    · rw [setEntry_apply, Function.update_apply]
      split_ifs with h1 h2 h2
      · rw [h1]
        ring
      · exact absurd ⟨rfl, h1⟩ h2
      · exact absurd h2.2 h1
      · rfl
    · have := h.available_nonneg r hrid
      rw [Function.update_apply]
      split_ifs with h1
      · rw [← h1]
        omega
      · exact this

theorem cleanup (h : g.Units) (pid : ℤ) : (deadlockCleanupProcess g pid).Units := by
  by_cases hp : validPid pid
  · have hav := available_deadlockCleanupProcess h.rows hp
    have ha := (deadlockCleanupProcess_spec h.rows hp).1
    refine h.of_move (h.rows.cleanup pid) hp (fun p r hne => ?_) (fun r => ?_) fun r hrid => ?_
    · rw [ha, if_neg hne]
    · rw [ha, if_pos rfl, hav, add_zero]
    · have := h.available_nonneg r hrid
      have := h.rows.allocation_nonneg pid r
      rw [hav]
      omega
  · rw [deadlockCleanupProcess, if_pos hp]
    exact h

theorem wakeWaiters (h : g.Units) (rid : ℤ) : (deadlockWakeWaiters g rid).1.Units :=
  wakeWaiters_keeps (fun _ pid rid h => h.alloc pid rid) (fun _ _ h => h.congr rfl rfl rfl rfl) h rid

theorem resolve (h : g.Units) (pid : ℤ) : (deadlockResolve g pid).1.Units := by
  unfold deadlockResolve
  split_ifs
  · exact wakeAll_keeps (fun _ rid h => h.wakeWaiters rid) (h.cleanup pid)
  · exact h

end Units

theorem units_deadlockInit (g : ResourceGraph) : (deadlockInit g).Units := by
  have hav : ∀ r, validRid r → (deadlockInit g).available r = 1 := by
    intro r hr
    obtain rfl | rfl | rfl : r = 0 ∨ r = 1 ∨ r = 2 := by
      unfold validRid numResources at hr
      omega
    all_goals rfl
  refine ⟨rows_deadlockInit g, fun r hr => ?_, fun r hr => ?_⟩
  · rw [hav r hr]
    rfl
  · rw [hav r hr]
    decide

end ResourceGraph

/-! ## Runs -/

theorem units_graphCall {g : ResourceGraph} (h : g.Units) (call : GraphCall) :
    (graphCall g call).Units := by
  cases call with
  | setPriority pid p =>
    simp only [graphCall, deadlockSetPriority]
    split_ifs
    · exact h.congr rfl rfl rfl rfl
    · exact h
  | alloc pid rid => exact h.alloc pid rid
  | request pid rid => exact h.deadlockRequest pid rid
  | release pid rid => exact h.release pid rid
  | cleanupProcess pid => exact h.cleanup pid
  | wakeWaiters rid => exact h.wakeWaiters rid
  | resolve pid => exact h.resolve pid

theorem units_graphRun (g₀ : ResourceGraph) (calls : List GraphCall) : (graphRun g₀ calls).Units :=
  List.foldlRecOn calls graphCall (ResourceGraph.units_deadlockInit g₀)
    fun _ h call _ => units_graphCall h call

/-- After any calls, the unit of each resource is free or held by one process, no entry is
negative, an inactive process has no entries, and no process asks for what it holds. -/
theorem one_unit_graphRun (g₀ : ResourceGraph) (calls : List GraphCall) :
    let g := graphRun g₀ calls
    (∀ r, validRid r →
      g.available r + (pidIndices.map fun p => g.allocation p r).sum = 1 ∧ 0 ≤ g.available r) ∧
    (∀ p r, 0 ≤ g.allocation p r ∧ 0 ≤ g.request p r) ∧
    (∀ p q r, 0 < g.allocation p r → 0 < g.allocation q r → p = q) ∧
    (∀ p, isActive g p = false → ∀ r, g.allocation p r = 0 ∧ g.request p r = 0) ∧
    ∀ p r, ¬(0 < g.allocation p r ∧ 0 < g.request p r) := by
  intro g
  have h : g.Units := units_graphRun g₀ calls
  refine ⟨fun r hr => ⟨h.conserved r hr, h.available_nonneg r hr⟩,
    fun p r => ⟨h.rows.allocation_nonneg p r, h.rows.request_nonneg p r⟩,
    fun p q r hp hq => h.holder_unique hp hq, fun p hp r => ⟨?_, ?_⟩, ?_⟩
  · by_contra hne
    have := (isActive_iff h.rows).mpr (h.rows.allocation_active p r hne).2
    rw [hp] at this
    cases this
  · by_contra hne
    have := (isActive_iff h.rows).mpr (h.rows.request_active p r hne).2
    rw [hp] at this
    cases this
  · rintro p r ⟨ha, hreq⟩
    have := h.rows.exclusive p r (by omega)
    omega

end FleetOS
