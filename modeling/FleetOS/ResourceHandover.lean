import FleetOS.ClearedRows
import FleetOS.WaitQueues

/-!
# The hand-over of resources

What the clean-up of a process and the passes over the queues that follow it do to a graph of
which only this is known : the unit of each resource is free or held (`OneUnit`), and no free
resource has an active waiter. Nothing is assumed of the requests and the queues.

A pass over the queue of one resource touches that resource only (`passed_wakeWaiters`), so the
passes can be looked at one resource at a time (`passed_wakeList`). Each resource that the process
held goes to its `heir`, and nothing else is given away (`inherited_wakeAllWaiters`).
-/

namespace FleetOS

namespace ResourceGraph

/-- The unit of each resource is free or held by one process. -/
structure OneUnit (g : ResourceGraph) : Prop where
  conserved : ∀ r, validRid r → g.available r + g.heldUnits r = 1
  available_nonneg : ∀ r, validRid r → 0 ≤ g.available r
  allocation_nonneg : ∀ p r, validPid p → validRid r → 0 ≤ g.allocation p r

/-- The active processes other than `pid` that wait for a resource, in order. -/
def otherWaiters (g : ResourceGraph) (pid rid : ℤ) : List ℤ :=
  (g.waitPid rid).filter fun q => isActive g q ∧ q ≠ pid

/-- The first of them, if `pid` holds the resource. -/
def heir (g : ResourceGraph) (pid rid : ℤ) : Option ℤ :=
  if 0 < g.allocation pid rid then (otherWaiters g pid rid).head? else none

/-- What the clean-up of `pid` and the passes after it do, from `g` to `g'`. -/
structure Inherited (g g' : ResourceGraph) (pid : ℤ) : Prop where
  cleared : ∀ r, validRid r →
    g'.allocation pid r = 0 ∧ g'.request pid r = 0 ∧ pid ∉ g'.waitPid r
  allocation : ∀ q r, q ≠ pid → validRid r →
    g'.allocation q r = g.allocation q r + if heir g pid r = some q then 1 else 0
  request : ∀ q r, q ≠ pid → validRid r →
    g'.request q r = if heir g pid r = some q then 0 else g.request q r
  waitPid : ∀ r, validRid r → g'.waitPid r =
    if (heir g pid r).isSome then (otherWaiters g pid r).tail else otherWaiters g pid r

variable {g g' g'' : ResourceGraph}

theorem not_mem_otherWaiters (g : ResourceGraph) (pid r : ℤ) : pid ∉ otherWaiters g pid r :=
  fun hm => (of_decide_eq_true (List.mem_filter.mp hm).2).2 rfl

theorem heir_ne {pid r : ℤ} : heir g pid r ≠ some pid := by
  intro hs
  unfold heir at hs
  split_ifs at hs
  exact not_mem_otherWaiters g pid r (List.mem_of_head? hs)

theorem OneUnit.available_le (h : g.OneUnit) {p r : ℤ} (hp : validPid p) (hr : validRid r) :
    g.available r + g.allocation p r ≤ 1 := by
  have hle : g.allocation p r ≤ g.heldUnits r :=
    List.single_le_sum (fun v hv => by
      obtain ⟨q, hq, rfl⟩ := List.mem_map.mp hv
      exact h.allocation_nonneg q r (mem_pidIndices.mp hq) hr) _
      (List.mem_map.mpr ⟨p, mem_pidIndices.mpr hp, rfl⟩)
  have := h.conserved r hr
  omega

/-! ## One resource at a time -/

/-- Both graphs say the same about a resource. -/
structure SameColumn (g g' : ResourceGraph) (r : ℤ) : Prop where
  available : g'.available r = g.available r
  allocation : ∀ p, g'.allocation p r = g.allocation p r
  request : ∀ p, g'.request p r = g.request p r
  waitPid : g'.waitPid r = g.waitPid r

/-- The process that a pass over the queue of a resource serves. -/
def grantee (g : ResourceGraph) (r : ℤ) : Option ℤ :=
  if 0 < g.available r then (activeWaiters g r).head? else none

/-- What a pass over the queue of a resource leaves of it. -/
structure Passed (g g' : ResourceGraph) (r : ℤ) : Prop where
  allocation : ∀ p, g'.allocation p r = g.allocation p r + if grantee g r = some p then 1 else 0
  request : ∀ p, g'.request p r = if grantee g r = some p then 0 else g.request p r
  waitPid : g'.waitPid r =
    if (grantee g r).isSome then (activeWaiters g r).tail else activeWaiters g r

theorem SameColumn.refl (g : ResourceGraph) (r : ℤ) : SameColumn g g r :=
  ⟨rfl, fun _ => rfl, fun _ => rfl, rfl⟩

theorem SameColumn.trans {r : ℤ} (h : SameColumn g g' r) (h' : SameColumn g' g'' r) :
    SameColumn g g'' r :=
  ⟨h'.available.trans h.available, fun p => (h'.allocation p).trans (h.allocation p),
    fun p => (h'.request p).trans (h.request p), h'.waitPid.trans h.waitPid⟩

theorem SameColumn.activeWaiters {r : ℤ} (h : SameColumn g g' r) (ha : isActive g' = isActive g) :
    activeWaiters g' r = activeWaiters g r := by
  rw [FleetOS.activeWaiters, h.waitPid, ha]
  rfl

theorem SameColumn.grantee {r : ℤ} (h : SameColumn g g' r) (ha : isActive g' = isActive g) :
    g'.grantee r = g.grantee r := by
  rw [ResourceGraph.grantee, h.available, h.activeWaiters ha]
  rfl

/-- The passes before and after it do not reach the resource. -/
theorem Passed.of_columns {g₁ g₂ : ResourceGraph} {r : ℤ} (h : SameColumn g g₁ r)
    (ha : isActive g₁ = isActive g) (hp : Passed g₁ g₂ r) (h' : SameColumn g₂ g' r) :
    Passed g g' r := by
  refine ⟨fun p => ?_, fun p => ?_, ?_⟩
  · rw [h'.allocation, hp.allocation, h.grantee ha, h.allocation]
  · rw [h'.request, hp.request, h.grantee ha, h.request]
  · rw [h'.waitPid, hp.waitPid, h.grantee ha, h.activeWaiters ha]

theorem passed_wakeWaiters {rid : ℤ} (hr : validRid rid) (h0 : 0 ≤ g.available rid)
    (h1 : g.available rid ≤ 1) :
    Passed g (deadlockWakeWaiters g rid).1 rid ∧
      isActive (deadlockWakeWaiters g rid).1 = isActive g ∧
      (∀ r, r ≠ rid → SameColumn g (deadlockWakeWaiters g rid).1 r) ∧
      (deadlockWakeWaiters g rid).2 = (grantee g rid).toList := by
  rcases deadlockWakeWaiters_cases hr h0 h1 with ⟨hnone, he⟩ | ⟨w, rest, hav, hfirst, he⟩
  · have hg : grantee g rid = none := by
      unfold grantee
      rcases hnone with hav | hempty
      · rw [hav, if_neg (lt_irrefl 0)]
      · rw [hempty, List.head?_nil, ite_self]
    rw [he]
    refine ⟨⟨fun p => ?_, fun p => ?_, ?_⟩, rfl, fun r hne => ⟨rfl, fun _ => rfl, fun _ => rfl, ?_⟩, ?_⟩
    · simp [dropped, hg]
    · simp [dropped, hg]
    · simp [dropped, hg]
    · exact Function.update_of_ne hne _ _
    · rw [hg]
      rfl
  · have hg : grantee g rid = some w := by
      rw [grantee, hav, if_pos zero_lt_one, hfirst, List.head?_cons]
    have hact : isActive g w = true :=
      (List.mem_filter.mp (show w ∈ activeWaiters g rid from hfirst ▸ List.mem_cons_self)).2
    rw [he]
    refine ⟨⟨fun p => ?_, fun p => ?_, ?_⟩, isActive_granted g rid hact, fun r hne =>
      ⟨?_, fun p => ?_, fun p => ?_, ?_⟩, ?_⟩
    · change setEntry g.allocation w rid _ p rid = _
      rw [setEntry_apply, hg]
      simp only [and_true, Option.some.injEq, eq_comm (a := w)]
      split_ifs with hpw
      · rw [hpw]
      · rw [add_zero]
    · change setEntry g.request w rid 0 p rid = _
      rw [setEntry_apply, hg]
      simp only [and_true, Option.some.injEq, eq_comm (a := w)]
    · change Function.update g.waitPid rid rest rid = _
      rw [Function.update_self, hg, hfirst]
      rfl
    · exact Function.update_of_ne hne _ _
    · exact (setEntry_apply _ _ _ _ _ _).trans (if_neg fun he => hne he.2)
    · exact (setEntry_apply _ _ _ _ _ _).trans (if_neg fun he => hne he.2)
    · exact Function.update_of_ne hne _ _
    · rw [hg]
      rfl

/-- The passes over the queues of `rids`. -/
theorem passed_wakeList : ∀ (rids : List ℤ) {s : ResourceGraph × List ℤ}, rids.Nodup →
    (∀ r ∈ rids, validRid r ∧ 0 ≤ s.1.available r ∧ s.1.available r ≤ 1) →
    (∀ r ∈ rids, Passed s.1 (wakeList rids s).1 r) ∧
      isActive (wakeList rids s).1 = isActive s.1 ∧
      (∀ r ∉ rids, SameColumn s.1 (wakeList rids s).1 r) ∧
      (wakeList rids s).2 = s.2 ++ rids.flatMap fun r => (grantee s.1 r).toList
  | [], s, _, _ => ⟨fun r hr => absurd hr List.not_mem_nil, rfl, fun r _ => .refl s.1 r,
      (List.append_nil _).symm⟩
  | rid :: rids, s, hnd, h => by
    obtain ⟨hnot, hnd⟩ := List.nodup_cons.mp hnd
    obtain ⟨hr, h0, h1⟩ := h rid List.mem_cons_self
    obtain ⟨hpass, hact, hsame, hwoken⟩ := passed_wakeWaiters hr h0 h1
    have hne : ∀ r ∈ rids, r ≠ rid := by
      rintro r hmem rfl
      exact hnot hmem
    obtain ⟨hpass', hact', hsame', hwoken'⟩ := passed_wakeList rids
      (s := ((deadlockWakeWaiters s.1 rid).1, s.2 ++ (deadlockWakeWaiters s.1 rid).2)) hnd (by
        intro r hr
        dsimp only
        rw [(hsame r (hne r hr)).available]
        exact h r (List.mem_cons_of_mem rid hr))
    refine ⟨fun r hr => ?_, hact'.trans hact, fun r hr => ?_, ?_⟩
    · rcases List.mem_cons.mp hr with rfl | hr
      · exact .of_columns (.refl _ _) rfl hpass (hsame' r hnot)
      · exact .of_columns (hsame r (hne r hr)) hact (hpass' r hr) (.refl _ _)
    · rw [List.mem_cons, not_or] at hr
      exact (hsame r hr.1).trans (hsame' r hr.2)
    · refine hwoken'.trans ?_
      have hgrantee : rids.flatMap (fun r => (grantee (deadlockWakeWaiters s.1 rid).1 r).toList) =
          rids.flatMap fun r => (grantee s.1 r).toList :=
        List.flatMap_congr fun r hr => by rw [(hsame r (hne r hr)).grantee hact]
      dsimp only
      rw [hwoken, hgrantee, List.flatMap_cons, List.append_assoc]

/-! ## The clean-up -/

/-- What `deadlock_cleanup_process` leaves of one resource. -/
theorem OneUnit.cleaned (h : g.OneUnit) {pid r : ℤ} (hp : validPid pid) (hr : validRid r) :
    (deadlockCleanupProcess g pid).available r = g.available r + g.allocation pid r ∧
      (∀ q, (deadlockCleanupProcess g pid).allocation q r =
        if q = pid then 0 else g.allocation q r) ∧
      (∀ q, (deadlockCleanupProcess g pid).request q r = if q = pid then 0 else g.request q r) ∧
      activeWaiters (deadlockCleanupProcess g pid) r = otherWaiters g pid r := by
  obtain ⟨g', hc, he⟩ := cleaned_deadlockCleanupProcess hp fun r hr => h.allocation_nonneg pid r hp hr
  have hmem := mem_resourceIndices.mpr hr
  rw [he]
  refine ⟨?_, fun q => ?_, fun q => ?_, ?_⟩
  · dsimp only
    rw [hc.available, if_pos hmem]
  · dsimp only
    rw [hc.allocation]
    simp only [hmem, and_true]
  · dsimp only
    rw [hc.request]
    simp only [hmem, and_true]
  · unfold activeWaiters otherWaiters
    rw [hc.waitPid]
    refine List.filter_congr fun q _ => ?_
    simp only [isActive, hc.active, Function.update_apply]
    by_cases hq : q = pid
    · simp [hq]
    · simp [hq]

/-- The pass serves the heir. -/
theorem OneUnit.grantee_cleaned (h : g.OneUnit) {pid r : ℤ} (hp : validPid pid) (hr : validRid r)
    (hidle : 0 < g.available r → activeWaiters g r = []) :
    grantee (deadlockCleanupProcess g pid) r = heir g pid r := by
  obtain ⟨hav, -, -, hwaiters⟩ := h.cleaned hp hr
  have h0 := h.allocation_nonneg pid r hp hr
  have h1 := h.available_nonneg r hr
  unfold grantee heir
  rw [hav, hwaiters]
  split_ifs with hg hheld hheld
  · rfl
  · -- the resource was free, so nobody waits for it
    have hnone := hidle (by omega)
    rw [List.head?_eq_none_iff, otherWaiters, List.filter_eq_nil_iff]
    intro q hq hqa
    have hmem : q ∈ activeWaiters g r := List.mem_filter.mpr ⟨hq, (of_decide_eq_true hqa).1⟩
    rw [hnone] at hmem
    exact absurd hmem List.not_mem_nil
  · omega
  · rfl

/-- Each resource of the process goes to its heir, and no other is given away. -/
theorem inherited_wakeAllWaiters (h : g.OneUnit)
    (hidle : ∀ r, validRid r → 0 < g.available r → activeWaiters g r = []) {pid : ℤ}
    (hp : validPid pid) :
    Inherited g (wakeAllWaiters (deadlockCleanupProcess g pid)).1 pid ∧
      (wakeAllWaiters (deadlockCleanupProcess g pid)).2 =
        resourceIndices.flatMap fun r => (heir g pid r).toList := by
  have hheir := fun r hr => h.grantee_cleaned (r := r) hp hr (hidle r hr)
  obtain ⟨hpass, -, -, hwoken⟩ := passed_wakeList resourceIndices
    (s := (deadlockCleanupProcess g pid, [])) nodup_resourceIndices fun r hr => by
      have hr := mem_resourceIndices.mp hr
      have h0 := h.allocation_nonneg pid r hp hr
      have h1 := h.available_nonneg r hr
      have h2 := h.available_le hp hr
      rw [(h.cleaned hp hr).1]
      exact ⟨hr, by omega, h2⟩
  rw [wakeAllWaiters_eq]
  refine ⟨⟨fun r hr => ?_, fun q r hq hr => ?_, fun q r hq hr => ?_, fun r hr => ?_⟩, ?_⟩
  · have hpr := hpass r (mem_resourceIndices.mpr hr)
    obtain ⟨-, halloc, hreq, hwaiters⟩ := h.cleaned hp hr
    refine ⟨?_, ?_, fun hm => not_mem_otherWaiters g pid r ?_⟩
    · rw [hpr.allocation, hheir r hr, if_neg heir_ne, halloc, if_pos rfl, add_zero]
    · rw [hpr.request, hheir r hr, if_neg heir_ne, hreq, if_pos rfl]
    · rw [hpr.waitPid, hheir r hr, hwaiters] at hm
      split_ifs at hm
      · exact List.mem_of_mem_tail hm
      · exact hm
  · obtain ⟨-, halloc, -, -⟩ := h.cleaned hp hr
    rw [(hpass r (mem_resourceIndices.mpr hr)).allocation, hheir r hr, halloc, if_neg hq]
  · obtain ⟨-, -, hreq, -⟩ := h.cleaned hp hr
    rw [(hpass r (mem_resourceIndices.mpr hr)).request, hheir r hr, hreq, if_neg hq]
  · obtain ⟨-, -, -, hwaiters⟩ := h.cleaned hp hr
    rw [(hpass r (mem_resourceIndices.mpr hr)).waitPid, hheir r hr, hwaiters]
  · rw [hwoken, List.nil_append]
    exact List.flatMap_congr fun r hr => by rw [hheir r (mem_resourceIndices.mp hr)]

end ResourceGraph

end FleetOS
