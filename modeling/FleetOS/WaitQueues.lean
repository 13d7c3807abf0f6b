import FleetOS.GraphUnits

/-!
# The wait queues and the requests

Who waits for a resource is written down twice, in its wait queue and in the request table.
A pass over a queue drops the inactive waiters and gives a free unit to the first one that is
left (`deadlockWakeWaiters_cases`).

The two copies agree as long as no process asks again for a resource in whose queue it is, and
no process that was cleaned up comes back with an entry in a queue (`RequestsOnce`). Then every
queue has room, since the holder is not in it (`QueuesAgree.room`). A request that breaks the
condition breaks the agreement at once (`requestsOnce_of_agree`), so the condition is exact
(`agree_graphRun_iff`).
-/

namespace FleetOS

open ResourceGraph

/-! ## A pass over a wait queue -/

/-- The waiters a pass over the queue of `rid` finds, in order. -/
def activeWaiters (g : ResourceGraph) (rid : ℤ) : List ℤ := (g.waitPid rid).filter (isActive g)

theorem isActive_granted (g : ResourceGraph) {w : ℤ} (rid : ℤ) (hw : isActive g w = true) :
    isActive (g.granted w rid) = isActive g := by
  funext p
  by_cases hp : p = w
  · subst hp
    rw [hw]
    simp only [isActive, decide_eq_true_eq] at hw ⊢
    exact ⟨hw.1, hw.2.1, Function.update_self _ _ _⟩
  · simp only [isActive, granted, Function.update_of_ne hp]

theorem validPid_of_isActive {g : ResourceGraph} {p : ℤ} (h : isActive g p = true) : validPid p := by
  simp only [isActive, decide_eq_true_eq] at h
  exact ⟨h.1, h.2.1⟩

/-- Without a free unit the pass only drops the inactive waiters. -/
theorem scanWaiters_taken {rid : ℤ} {g : ResourceGraph} (hav : g.available rid ≤ 0) :
    ∀ ws, (scanWaiters rid g ws).graph = g ∧ (scanWaiters rid g ws).woken = [] ∧
      ((scanWaiters rid g ws).entries.filter fun p => 0 ≤ p) = ws.filter (isActive g)
  | [] => ⟨rfl, rfl, rfl⟩
  | w :: ws => by
    obtain ⟨hg, hwoken, hkept⟩ := scanWaiters_taken hav ws
    rw [scanWaiters, if_neg (not_lt.mpr hav)]
    split_ifs with hneg hact
    · have hact : isActive g w ≠ true := fun h => absurd (validPid_of_isActive h).1 (by omega)
      refine ⟨hg, hwoken, ?_⟩
      rw [List.filter_cons_of_neg (by simpa using hneg), List.filter_cons_of_neg hact, hkept]
    · have hact : isActive g w ≠ true := by simpa using hact
      refine ⟨hg, hwoken, ?_⟩
      rw [List.filter_cons_of_neg (by decide), List.filter_cons_of_neg hact, hkept]
    · have hact : isActive g w = true := by simpa using hact
      refine ⟨hg, hwoken, ?_⟩
      rw [List.filter_cons_of_pos (by simpa using hneg), List.filter_cons_of_pos hact, hkept]

/-- A free unit goes to the first active waiter. -/
theorem scanWaiters_free {rid : ℤ} (hr : validRid rid) {g : ResourceGraph}
    (hav : g.available rid = 1) :
    ∀ ws, (ws.filter (isActive g) = [] ∧ (scanWaiters rid g ws).graph = g ∧
        (scanWaiters rid g ws).woken = [] ∧
        ((scanWaiters rid g ws).entries.filter fun p => 0 ≤ p) = []) ∨
      ∃ w rest, ws.filter (isActive g) = w :: rest ∧
        (scanWaiters rid g ws).graph = g.granted w rid ∧ (scanWaiters rid g ws).woken = [w] ∧
        ((scanWaiters rid g ws).entries.filter fun p => 0 ≤ p) = rest
  | [] => Or.inl ⟨rfl, rfl, rfl, rfl⟩
  | w :: ws => by
    have ih := scanWaiters_free hr hav ws
    rw [scanWaiters, if_pos (show 0 < g.available rid by omega)]
    split_ifs with hneg hact
    · have hact : isActive g w ≠ true := fun h => absurd (validPid_of_isActive h).1 (by omega)
      rw [List.filter_cons_of_neg hact, List.filter_cons_of_neg (by simpa using hneg)]
      exact ih
    · have hact : isActive g w ≠ true := by simpa using hact
      rw [List.filter_cons_of_neg hact, List.filter_cons_of_neg (by decide)]
      exact ih
    · have hact : isActive g w = true := by simpa using hact
      have hp := validPid_of_isActive hact
      have halloc : (deadlockAlloc g w rid).1 = g.granted w rid := by
        rw [deadlockAlloc, if_neg (not_not.mpr hp), if_neg (not_not.mpr hr), if_neg (by omega)]
        rfl
      have htaken : (g.granted w rid).available rid ≤ 0 := by
        dsimp only [granted]
        rw [Function.update_self]
        omega
      obtain ⟨hg, hwoken, hkept⟩ := scanWaiters_taken htaken ws
      rw [isActive_granted g rid hact] at hkept
      right
      rw [halloc]
      refine ⟨w, ws.filter (isActive g), List.filter_cons_of_pos hact, hg, ?_, ?_⟩
      · exact congrArg (w :: ·) hwoken
      · rw [List.filter_cons_of_neg (by decide), hkept]

/-- The graph after a pass that gives nothing away. -/
def dropped (g : ResourceGraph) (rid : ℤ) : ResourceGraph :=
  { g with waitPid := Function.update g.waitPid rid (activeWaiters g rid) }

/-- The graph after a pass that gives the unit to `w`, before the waiters `rest`. -/
def handedOver (g : ResourceGraph) (rid w : ℤ) (rest : List ℤ) : ResourceGraph :=
  { g.granted w rid with waitPid := Function.update g.waitPid rid rest }

/-- Everything `deadlock_wake_waiters` can do. -/
theorem deadlockWakeWaiters_cases {g : ResourceGraph} {rid : ℤ} (hr : validRid rid)
    (h0 : 0 ≤ g.available rid) (h1 : g.available rid ≤ 1) :
    ((g.available rid = 0 ∨ activeWaiters g rid = []) ∧
      deadlockWakeWaiters g rid = (dropped g rid, [])) ∨
    ∃ w rest, g.available rid = 1 ∧ activeWaiters g rid = w :: rest ∧
      deadlockWakeWaiters g rid = (handedOver g rid w rest, [w]) := by
  rw [deadlockWakeWaiters, if_neg (not_not.mpr hr)]
  dsimp only
  by_cases hav : g.available rid ≤ 0
  · left
    obtain ⟨hg, hwoken, hkept⟩ := scanWaiters_taken hav (g.waitPid rid)
    refine ⟨Or.inl (by omega), ?_⟩
    rw [hg, hwoken, hkept]
    rfl
  · have hav : g.available rid = 1 := by omega
    rcases scanWaiters_free hr hav (g.waitPid rid) with
      ⟨hnone, hg, hwoken, hkept⟩ | ⟨w, rest, hfirst, hg, hwoken, hkept⟩
    · left
      refine ⟨Or.inr hnone, ?_⟩
      rw [hg, hwoken, hkept, dropped, activeWaiters, hnone]
    · right
      refine ⟨w, rest, hav, hfirst, ?_⟩
      rw [hg, hwoken, hkept]
      rfl

/-! ## Agreement -/

/-- An active process asks for a resource exactly when it is in its queue, and then once. -/
def Agree (g : ResourceGraph) : Prop :=
  ∀ p r, isActive g p = true →
    (g.request p r = 1 ↔ p ∈ g.waitPid r) ∧ (p ∈ g.waitPid r → (g.waitPid r).count p = 1)

/-- A process that does not hold the resource asks only if it is not in its queue, and after a
clean-up only once it is in no queue. -/
def RequestsOnce (g : ResourceGraph) : GraphCall → Prop
  | .request pid rid => validPid pid → validRid rid → g.allocation pid rid ≤ 0 →
      pid ∉ g.waitPid rid ∧ (isActive g pid = false → ∀ r, pid ∉ g.waitPid r)
  | _ => True

/-- Who waits is the same in both copies, and no queue has an entry twice. -/
structure QueuesAgree (g : ResourceGraph) : Prop where
  units : g.Units
  request_le : ∀ p r, g.request p r ≤ 1
  asking : ∀ p r, g.active p = true → (g.request p r = 1 ↔ p ∈ g.waitPid r)
  nodup : ∀ r, (g.waitPid r).Nodup
  entries_valid : ∀ r, ∀ p ∈ g.waitPid r, validPid p

namespace QueuesAgree

variable {g g' : ResourceGraph}

theorem agree (h : QueuesAgree g) : Agree g := by
  intro p r hp
  refine ⟨h.asking p r ((isActive_iff h.units.rows).mp hp), fun hmem => ?_⟩
  exact List.count_eq_one_of_mem (h.nodup r) hmem

/-- The holder is not in the queue, so the queue is not full. -/
theorem room (h : QueuesAgree g) {r : ℤ} (hr : validRid r) (hav : g.available r ≤ 0) :
    (g.waitPid r).length < maxProcs := by
  obtain ⟨q, hq⟩ := h.units.exists_holder hr hav
  obtain ⟨-, hqa⟩ := h.units.rows.allocation_active q r (by omega)
  have hnot : q ∉ g.waitPid r := by
    intro hmem
    have hask := (h.asking q r hqa).mpr hmem
    have := h.units.rows.exclusive q r (by omega)
    omega
  have hnd : (q :: g.waitPid r).Nodup := List.nodup_cons.mpr ⟨hnot, h.nodup r⟩
  have hsub : q :: g.waitPid r ⊆ pidIndices := by
    intro p hp
    rcases List.mem_cons.mp hp with rfl | hp
    · exact mem_pidIndices.mpr (h.units.rows.active_valid p hqa)
    · exact mem_pidIndices.mpr (h.entries_valid r p hp)
  have := (List.subperm_of_subset hnd hsub).length_le
  have hlen : pidIndices.length = maxProcs := by simp [pidIndices]
  rw [List.length_cons, hlen] at this
  omega

/-- The two tables that are read change for `pid` only, and its queues change with them. -/
theorem of_row (h : QueuesAgree g) (hunits : g'.Units) (pid : ℤ)
    (hother : ∀ p, p ≠ pid → g'.active p = g.active p ∧ ∀ r, g'.request p r = g.request p r ∧
      (g.active p = true → (p ∈ g'.waitPid r ↔ p ∈ g.waitPid r)))
    (hself : g'.active pid = true → ∀ r, g'.request pid r = 1 ↔ pid ∈ g'.waitPid r)
    (hle : ∀ r, g'.request pid r ≤ 1) (hnd : ∀ r, (g'.waitPid r).Nodup)
    (hvalid : ∀ r, ∀ p ∈ g'.waitPid r, validPid p) : QueuesAgree g' := by
  refine ⟨hunits, fun p r => ?_, fun p r hp => ?_, hnd, hvalid⟩
  · by_cases hpp : p = pid
    · exact hpp ▸ hle r
    · rw [((hother p hpp).2 r).1]
      exact h.request_le p r
  · by_cases hpp : p = pid
    · subst hpp
      exact hself hp r
    · obtain ⟨hact, hrest⟩ := hother p hpp
      rw [hact] at hp
      rw [(hrest r).1, (hrest r).2 hp]
      exact h.asking p r hp

theorem congr (h : QueuesAgree g) (hunits : g'.Units) (hr : g'.request = g.request)
    (hact : g'.active = g.active) (hw : g'.waitPid = g.waitPid) : QueuesAgree g' := by
  refine ⟨hunits, ?_, ?_, ?_, ?_⟩
  · simpa only [hr] using h.request_le
  · simpa only [hr, hact, hw] using h.asking
  · simpa only [hw] using h.nodup
  · simpa only [hw] using h.entries_valid

/-- Before its request a process asks for what it is queued for, also if it was inactive. -/
theorem row_of_once (h : QueuesAgree g) {pid : ℤ}
    (honce : isActive g pid = false → ∀ r, pid ∉ g.waitPid r) (r : ℤ) :
    g.request pid r = 1 ↔ pid ∈ g.waitPid r := by
  by_cases hact : g.active pid = true
  · exact h.asking pid r hact
  · have hno : isActive g pid = false := by
      rw [Bool.eq_false_iff]
      exact fun hp => hact ((isActive_iff h.units.rows).mp hp)
    have hzero : g.request pid r = 0 :=
      not_not.mp fun hne => hact (h.units.rows.request_active pid r hne).2
    refine iff_of_false (by omega) (honce hno r)

theorem deadlockRequest (h : QueuesAgree g) {pid rid : ℤ}
    (honce : RequestsOnce g (.request pid rid)) : QueuesAgree (deadlockRequest g pid rid).1 := by
  have hunits := h.units.deadlockRequest pid rid
  rcases deadlockRequest_cases g pid rid with
    he | ⟨hp, hr, hheld, ⟨-, he⟩ | ⟨hav, hfull, -⟩ | ⟨-, -, he⟩⟩
  · rw [he]
    exact h
  · obtain ⟨hnot, hback⟩ := honce hp hr hheld
    rw [he] at hunits ⊢
    refine h.of_row hunits pid (fun p hne => ⟨?_, fun r => ⟨?_, fun _ => Iff.rfl⟩⟩) (fun _ r => ?_) (fun r => ?_)
      h.nodup h.entries_valid
    all_goals dsimp only [requested, granted]
    · rw [Function.update_of_ne hne, Function.update_of_ne hne]
    · rw [setEntry_apply, if_neg fun hh => hne hh.1, setEntry_apply, if_neg fun hh => hne hh.1]
    · rw [setEntry_setEntry, setEntry_apply]
      split_ifs with hrr
      · rw [hrr.2]
        exact iff_of_false (by decide) hnot
      · exact h.row_of_once hback r
    · rw [setEntry_setEntry, setEntry_apply]
      split_ifs
      · decide
      · exact h.request_le pid r
  · exact absurd (h.room hr hav) (not_lt.mpr hfull)
  · obtain ⟨hnot, hback⟩ := honce hp hr hheld
    rw [he] at hunits ⊢
    have hqueue : ∀ r, Function.update g.waitPid rid (g.waitPid rid ++ [pid]) r =
        if r = rid then g.waitPid rid ++ [pid] else g.waitPid r := by
      intro r
      rw [Function.update_apply]
    refine h.of_row hunits pid (fun p hne => ⟨?_, fun r => ⟨?_, fun _ => ?_⟩⟩) (fun _ r => ?_)
      (fun r => ?_) (fun r => ?_) fun r p hmem => ?_
    all_goals dsimp only [requested] at *
    · rw [Function.update_of_ne hne]
    · rw [setEntry_apply, if_neg fun hh => hne hh.1]
    · rw [hqueue]
      split_ifs with hrr
      · rw [hrr, List.mem_append, List.mem_singleton, or_iff_left hne]
      · rfl
    · rw [setEntry_apply, hqueue]
      by_cases hrr : r = rid
      · rw [if_pos ⟨rfl, hrr⟩, if_pos hrr]
        exact iff_of_true rfl (List.mem_append_right _ List.mem_cons_self)
      · rw [if_neg fun hh => hrr hh.2, if_neg hrr]
        exact h.row_of_once hback r
    · rw [setEntry_apply]
      split_ifs
      · exact le_refl _
      · exact h.request_le pid r
    · rw [hqueue]
      split_ifs
      · exact List.nodup_append.mpr ⟨h.nodup rid, List.nodup_singleton pid, by
          rintro a ha b hb rfl
          exact hnot (List.mem_singleton.mp hb ▸ ha)⟩
      · exact h.nodup r
    · rw [hqueue] at hmem
      split_ifs at hmem
      · rcases List.mem_append.mp hmem with hmem | hmem
        · exact h.entries_valid rid p hmem
        · exact List.mem_singleton.mp hmem ▸ hp
      · exact h.entries_valid r p hmem

theorem release (h : QueuesAgree g) (pid rid : ℤ) : QueuesAgree (deadlockRelease g pid rid) := by
  refine h.congr (h.units.release pid rid) ?_ ?_ ?_
  all_goals
    unfold deadlockRelease
    split_ifs <;> rfl

theorem cleanup (h : QueuesAgree g) (pid : ℤ) : QueuesAgree (deadlockCleanupProcess g pid) := by
  by_cases hp : validPid pid
  · obtain ⟨-, hreq, hact, hw, -⟩ := deadlockCleanupProcess_spec h.units.rows hp
    refine h.of_row (h.units.cleanup pid) pid (fun p hne => ⟨?_, fun r => ⟨?_, fun _ => ?_⟩⟩)
      (fun ha => ?_) (fun r => ?_) ?_ ?_
    · rw [hact, if_neg hne]
    · rw [hreq, if_neg hne]
    · rw [hw]
    · rw [hact, if_pos rfl] at ha
      cases ha
    · rw [hreq, if_pos rfl]
      decide
    · rw [hw]
      exact h.nodup
    · rw [hw]
      exact h.entries_valid
  · rw [deadlockCleanupProcess, if_pos hp]
    exact h

/-- The queue loses inactive entries, and the process that gets the unit. -/
theorem wakeWaiters (h : QueuesAgree g) (rid : ℤ) : QueuesAgree (deadlockWakeWaiters g rid).1 := by
  by_cases hr : validRid rid
  · have hunits := h.units.wakeWaiters rid
    have hmem : ∀ p, p ∈ activeWaiters g rid ↔ p ∈ g.waitPid rid ∧ isActive g p = true := by
      simp [activeWaiters]
    have hnd : (activeWaiters g rid).Nodup := (h.nodup rid).filter _
    rcases deadlockWakeWaiters_cases hr (h.units.available_nonneg rid hr)
        (h.units.available_le rid hr) with ⟨-, he⟩ | ⟨w, rest, -, hfirst, he⟩
    · rw [he] at hunits ⊢
      refine ⟨hunits, h.request_le, fun p r hp => ?_, fun r => ?_, fun r p hp => ?_⟩
      all_goals dsimp only [dropped] at *
      · rw [h.asking p r hp, Function.update_apply]
        split_ifs with hrr
        · rw [hmem, hrr, and_iff_left ((isActive_iff h.units.rows).mpr hp)]
        · rfl
      · rw [Function.update_apply]
        split_ifs
        · exact hnd
        · exact h.nodup r
      · rw [Function.update_apply] at hp
        split_ifs at hp
        · exact h.entries_valid rid p ((hmem p).mp hp).1
        · exact h.entries_valid r p hp
    · rw [hfirst] at hmem hnd
      obtain ⟨hnot, hnd⟩ := List.nodup_cons.mp hnd
      have hw := (hmem w).mp List.mem_cons_self
      have hwa : g.active w = true := (isActive_iff h.units.rows).mp hw.2
      rw [he] at hunits ⊢
      refine h.of_row hunits w (fun p hne => ⟨?_, fun r => ⟨?_, fun hp => ?_⟩⟩) (fun _ r => ?_)
        (fun r => ?_) (fun r => ?_) fun r p hp => ?_
      all_goals dsimp only [handedOver, granted] at *
      · rw [Function.update_of_ne hne]
      · rw [setEntry_apply, if_neg fun hh => hne hh.1]
      · have hpm := hmem p
        rw [List.mem_cons, or_iff_right hne, (isActive_iff h.units.rows).mpr hp] at hpm
        rw [Function.update_apply]
        split_ifs with hrr
        · rw [hpm, hrr, and_iff_left rfl]
        · rfl
      · rw [setEntry_apply, Function.update_apply]
        by_cases hrr : r = rid
        · rw [if_pos ⟨rfl, hrr⟩, if_pos hrr]
          exact iff_of_false (by decide) hnot
        · rw [if_neg fun hh => hrr hh.2, if_neg hrr]
          exact h.asking w r hwa
      · rw [setEntry_apply]
        split_ifs
        · decide
        · exact h.request_le w r
      · rw [Function.update_apply]
        split_ifs
        · exact hnd
        · exact h.nodup r
      · rw [Function.update_apply] at hp
        split_ifs at hp
        · exact h.entries_valid rid p ((hmem p).mp (List.mem_cons_of_mem w hp)).1
        · exact h.entries_valid r p hp
  · rw [deadlockWakeWaiters, if_pos hr]
    exact h

/-- What gets a unit has asked for it. -/
theorem grant_asked (h : QueuesAgree g) {p r : ℤ} (hp : p ∈ (deadlockWakeWaiters g r).2) :
    g.request p r = 1 := by
  by_cases hr : validRid r
  · rcases deadlockWakeWaiters_cases hr (h.units.available_nonneg r hr)
        (h.units.available_le r hr) with ⟨-, he⟩ | ⟨w, rest, -, hfirst, he⟩
    · rw [he] at hp
      exact absurd hp List.not_mem_nil
    · rw [he] at hp
      obtain rfl := List.mem_singleton.mp hp
      have hmem : p ∈ activeWaiters g r := hfirst ▸ List.mem_cons_self
      obtain ⟨hq, hact⟩ := List.mem_filter.mp hmem
      exact (h.asking p r ((isActive_iff h.units.rows).mp hact)).mpr hq
  · rw [deadlockWakeWaiters, if_pos hr] at hp
    exact absurd hp List.not_mem_nil

end QueuesAgree

theorem queuesAgree_deadlockInit (g : ResourceGraph) : QueuesAgree (deadlockInit g) := by
  refine ⟨units_deadlockInit g, fun p r => ?_, fun p r hp => ?_, fun r => List.nodup_nil, ?_⟩
  · change (0 : ℤ) ≤ 1
    decide
  · cases hp
  · intro r p hp
    exact absurd hp List.not_mem_nil

/-! ## Runs -/

/-- The graphs and the resources with which a call enters `deadlock_wake_waiters`. -/
def wakeCalls (g : ResourceGraph) : GraphCall → List (ResourceGraph × ℤ)
  | .wakeWaiters rid => [(g, rid)]
  | .resolve pid =>
    if ¬validPid pid then []
    else
      (resourceIndices.scanl (fun g rid => (deadlockWakeWaiters g rid).1)
        (deadlockCleanupProcess g pid)).zip resourceIndices
  | _ => []

/-- No call made now gives a resource to a process that does not ask for it. -/
def GrantsAsked (g : ResourceGraph) : Prop :=
  ∀ call, ∀ s ∈ wakeCalls g call, ∀ p ∈ (deadlockWakeWaiters s.1 s.2).2, s.1.request p s.2 = 1

theorem QueuesAgree.scanl (rids : List ℤ) {g : ResourceGraph} (h : QueuesAgree g) :
    ∀ s ∈ (rids.scanl (fun g rid => (deadlockWakeWaiters g rid).1) g).zip rids, QueuesAgree s.1 := by
  induction rids generalizing g with
  | nil =>
    intro s hs
    rw [List.zip_nil_right] at hs
    exact absurd hs List.not_mem_nil
  | cons rid rids ih =>
    intro s hs
    rw [List.scanl_cons, List.zip_cons_cons] at hs
    rcases List.mem_cons.mp hs with rfl | hs
    · exact h
    · exact ih (h.wakeWaiters rid) s hs

theorem QueuesAgree.grantsAsked {g : ResourceGraph} (h : QueuesAgree g) : GrantsAsked g := by
  intro call s hs p hp
  suffices hg : QueuesAgree s.1 from hg.grant_asked hp
  cases call with
  | wakeWaiters rid =>
    rw [List.mem_singleton.mp hs]
    exact h
  | resolve pid =>
    rw [wakeCalls] at hs
    split_ifs at hs
    · exact (h.cleanup pid).scanl resourceIndices s hs
    · exact absurd hs List.not_mem_nil
  | _ => exact absurd hs List.not_mem_nil

theorem queuesAgree_graphCall {g : ResourceGraph} (h : QueuesAgree g) {call : GraphCall}
    (hno : ∀ pid rid, call ≠ .alloc pid rid) (honce : RequestsOnce g call) :
    QueuesAgree (graphCall g call) := by
  cases call with
  | setPriority pid p =>
    refine h.congr (units_graphCall h.units _) ?_ ?_ ?_
    all_goals
      simp only [graphCall, deadlockSetPriority]
      split_ifs <;> rfl
  | alloc pid rid => exact absurd rfl (hno pid rid)
  | request pid rid => exact h.deadlockRequest honce
  | release pid rid => exact h.release pid rid
  | cleanupProcess pid => exact h.cleanup pid
  | wakeWaiters rid => exact h.wakeWaiters rid
  | resolve pid =>
    simp only [graphCall, deadlockResolve]
    split_ifs
    · exact wakeAll_keeps (fun _ rid h => h.wakeWaiters rid) (h.cleanup pid)
    · exact h

/-- A request leaves the process active, and its entries for other resources as they are. -/
theorem deadlockRequest_row (g : ResourceGraph) {pid rid : ℤ} (hp : validPid pid)
    (hr : validRid rid) (hheld : g.allocation pid rid ≤ 0) :
    isActive (deadlockRequest g pid rid).1 pid = true ∧ ∀ r, r ≠ rid →
      (deadlockRequest g pid rid).1.request pid r = g.request pid r ∧
        (deadlockRequest g pid rid).1.waitPid r = g.waitPid r := by
  have hactive : ∀ a : ℤ → Bool, Function.update a pid true pid = true :=
    fun a => Function.update_self pid true a
  rcases deadlockRequest_asked g hp hr hheld with ⟨-, he⟩ | ⟨-, -, he⟩ | ⟨-, -, he⟩
  all_goals
    rw [he]
    refine ⟨decide_eq_true ⟨hp.1, hp.2, hactive _⟩, fun r hne => ⟨?_, ?_⟩⟩
    all_goals
      simp only [granted, requested, setEntry_apply, hne, and_false, if_false,
        Function.update_of_ne hne]

/-- A second entry, or the entry of a process that was cleaned up, breaks the agreement. -/
theorem requestsOnce_of_agree {g : ResourceGraph} (h : QueuesAgree g) {call : GraphCall}
    (hagree : Agree (graphCall g call)) : RequestsOnce g call := by
  cases call with
  | request pid rid =>
    intro hp hr hheld
    change Agree (deadlockRequest g pid rid).1 at hagree
    obtain ⟨hact, hrow⟩ := deadlockRequest_row g hp hr hheld
    have hnot : pid ∉ g.waitPid rid := by
      intro hmem
      obtain ⟨hask, hcount⟩ := hagree pid rid hact
      rcases deadlockRequest_asked g hp hr hheld with ⟨-, he⟩ | ⟨hav, hfull, -⟩ | ⟨-, -, he⟩
      · rw [he] at hask
        have := hask.mpr hmem
        simp [granted, setEntry_apply] at this
      · exact absurd (h.room hr hav) (not_lt.mpr hfull)
      · rw [he] at hcount
        have hq : Function.update g.waitPid rid (g.waitPid rid ++ [pid]) rid =
            g.waitPid rid ++ [pid] := Function.update_self _ _ _
        dsimp only at hcount
        rw [hq, List.count_append, List.count_eq_one_of_mem (h.nodup rid) hmem] at hcount
        have := hcount (List.mem_append_left _ hmem)
        simp at this
    refine ⟨hnot, fun hno r hmem => ?_⟩
    by_cases hrr : r = rid
    · exact hnot (hrr ▸ hmem)
    · obtain ⟨hreq, hq⟩ := hrow r hrr
      have hask := (hagree pid r hact).1.mpr (hq ▸ hmem)
      have hact' := (h.units.rows.request_active pid r (by omega)).2
      rw [(isActive_iff h.units.rows).mpr hact'] at hno
      cases hno
  | _ => trivial

/-- A run whose calls meet the condition, as far as the two copies agree, keeps them agreed. -/
theorem queuesAgree_graphRun {g₀ : ResourceGraph} {calls : List GraphCall}
    (hno : ∀ pid rid, GraphCall.alloc pid rid ∉ calls)
    (honce : ∀ pre call, pre ++ [call] <+: calls → QueuesAgree (graphRun g₀ pre) →
      RequestsOnce (graphRun g₀ pre) call) :
    ∀ pre, pre <+: calls → QueuesAgree (graphRun g₀ pre) := by
  intro pre
  induction pre using List.reverseRecOn with
  | nil => exact fun _ => queuesAgree_deadlockInit g₀
  | append_singleton pre call ih =>
    intro hpre
    have h := ih ((List.prefix_append pre [call]).trans hpre)
    have hcall : ∀ pid rid, call ≠ .alloc pid rid := by
      rintro pid rid rfl
      exact hno pid rid (hpre.subset (List.mem_append_right pre List.mem_cons_self))
    have hrun : graphRun g₀ (pre ++ [call]) = graphCall (graphRun g₀ pre) call := by
      simp [graphRun]
    rw [hrun]
    exact queuesAgree_graphCall h hcall (honce pre call hpre h)

/-- In a run without direct allocations the queues and the requests agree in every state, and
every unit goes to a process that asks for it, exactly when every request meets the
condition. -/
theorem agree_graphRun_iff (g₀ : ResourceGraph) {calls : List GraphCall}
    (hno : ∀ pid rid, GraphCall.alloc pid rid ∉ calls) :
    (∀ pre, pre <+: calls → Agree (graphRun g₀ pre) ∧ GrantsAsked (graphRun g₀ pre)) ↔
      ∀ pre call, pre ++ [call] <+: calls → RequestsOnce (graphRun g₀ pre) call := by
  constructor
  · intro hagree
    have honce : ∀ pre call, pre ++ [call] <+: calls → QueuesAgree (graphRun g₀ pre) →
        RequestsOnce (graphRun g₀ pre) call := by
      intro pre call hpre h
      refine requestsOnce_of_agree h ?_
      have := (hagree (pre ++ [call]) hpre).1
      simpa [graphRun] using this
    intro pre call hpre
    refine honce pre call hpre (queuesAgree_graphRun hno honce pre ?_)
    exact (List.prefix_append pre [call]).trans hpre
  · intro honce pre hpre
    have h := queuesAgree_graphRun hno (fun pre call hpre _ => honce pre call hpre) pre hpre
    exact ⟨h.agree, h.grantsAsked⟩

/-- Process 1 asks twice while process 0 holds the pad. -/
def askedTwice : List GraphCall :=
  [.request 0 resourceLandingPad, .request 1 resourceLandingPad, .request 1 resourceLandingPad]

/-- The second entry stays when the first is served, and is served once the pad is free. -/
def servedTwice : List GraphCall :=
  askedTwice ++ [.release 0 resourceLandingPad, .wakeWaiters resourceLandingPad,
    .release 1 resourceLandingPad]

theorem agree_askedTwice :
    ¬Agree (graphRun .zero askedTwice) ∧ ¬GrantsAsked (graphRun .zero servedTwice) := by
  have hq : (graphRun .zero askedTwice).waitPid resourceLandingPad = [1, 1] := by decide +kernel
  have hact : isActive (graphRun .zero askedTwice) 1 = true := by decide +kernel
  have hgrant : (deadlockWakeWaiters (graphRun .zero servedTwice) resourceLandingPad).2 = [1] := by
    decide +kernel
  have hreq : (graphRun .zero servedTwice).request 1 resourceLandingPad = 0 := by decide +kernel
  constructor
  · intro h
    have hcount := (h 1 resourceLandingPad hact).2
    rw [hq] at hcount
    exact absurd (hcount (by decide)) (by decide)
  · intro h
    have hasked := h (.wakeWaiters resourceLandingPad) _ (List.mem_singleton.mpr rfl) 1 (by
      rw [hgrant]
      exact List.mem_cons_self)
    rw [hreq] at hasked
    cases hasked

/-- Process 1 asks once while process 0 holds the pad. -/
def askedOnce : List GraphCall := [.request 0 resourceLandingPad, .request 1 resourceLandingPad]

theorem agree_graphRun_iff_askedOnce :
    Agree (graphRun .zero askedOnce) ∧ GrantsAsked (graphRun .zero askedOnce) := by
  have hno : ∀ pid rid, GraphCall.alloc pid rid ∉ askedOnce := by
    intro pid rid hmem
    simp [askedOnce] at hmem
  have hempty : ∀ pid rid, RequestsOnce (deadlockInit .zero) (.request pid rid) :=
    fun _ _ _ _ _ => ⟨List.not_mem_nil, fun _ _ => List.not_mem_nil⟩
  have hqueues : (graphRun .zero [.request 0 resourceLandingPad]).waitPid = fun _ => [] := rfl
  refine (agree_graphRun_iff .zero hno).mpr (fun pre call hpre => ?_) askedOnce List.prefix_rfl
  rcases pre with _ | ⟨a, _ | ⟨b, pre⟩⟩
  · obtain rfl : call = .request 0 resourceLandingPad := by simpa [askedOnce] using hpre
    exact hempty _ _
  · obtain ⟨rfl, rfl⟩ : a = .request 0 resourceLandingPad ∧ call = .request 1 resourceLandingPad := by
      simpa [askedOnce] using hpre
    intro _ _ _
    rw [hqueues]
    exact ⟨List.not_mem_nil, fun _ _ => List.not_mem_nil⟩
  · have := hpre.length_le
    simp [askedOnce] at this

end FleetOS
