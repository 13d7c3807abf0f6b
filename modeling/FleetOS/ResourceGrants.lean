import FleetOS.ClearedRows
import FleetOS.WaitQueues

/-!
# Grants of queued resources

`WaitQueues` takes requests that are never repeated. The threads of one process may repeat them,
so a queue can have a process twice, and the second entry is left behind when the first is
served. What is kept then is that an active process in a queue asks for the resource or holds it
(`Asking`). So a pass over a queue gives the unit, which was free, to a process that asked for it
(`granted_wakeWaiters`), and the passes over all queues are a list of such grants
(`wakeGrants`, `granted_wakeList`).
-/

namespace FleetOS

namespace ResourceGraph

/-- A process asks for one resource at a time, and an active one is queued for what it asks for or
holds. -/
structure Asking (g : ResourceGraph) : Prop where
  units : g.Units
  waiters : g.WaitersValid
  request_le : ∀ p r, g.request p r ≤ 1
  one : ∀ p r r', g.request p r = 1 → g.request p r' = 1 → r = r'
  entries : ∀ r, ∀ p ∈ g.waitPid r, isActive g p = true → g.request p r = 1 ∨ 0 < g.allocation p r

/-- No queue has an entry of an inactive process. -/
def QueuesActive (g : ResourceGraph) : Prop := ∀ r, ∀ p ∈ g.waitPid r, isActive g p = true

/-- The grants made by the passes over the queues of `rids`, in order. -/
def wakeGrants : List ℤ → ResourceGraph → List (ℤ × ℤ)
  | [], _ => []
  | rid :: rids, g =>
    (deadlockWakeWaiters g rid).2.map (fun pid => (pid, rid)) ++
      wakeGrants rids (deadlockWakeWaiters g rid).1

/-- What a list of grants does to the requests, from `g` to `g'`. -/
structure Granted (g g' : ResourceGraph) (grants : List (ℤ × ℤ)) : Prop where
  asking : g'.Asking
  asked : ∀ x ∈ grants, g.request x.1 x.2 = 1
  request : ∀ p r, g'.request p r = if (p, r) ∈ grants then 0 else g.request p r
  active : isActive g' = isActive g

variable {g g' g'' : ResourceGraph}

/-- An entry that is `0` where it was cleared. -/
theorem of_cleared {c : Prop} [Decidable c] {v : ℤ} (h : (if c then 0 else v) = 1) : ¬c ∧ v = 1 := by
  split_ifs at h with hc
  · cases h
  · exact ⟨hc, h⟩

theorem Granted.refl (h : g.Asking) : Granted g g [] :=
  ⟨h, fun _ hx => absurd hx List.not_mem_nil, fun _ _ => (if_neg List.not_mem_nil).symm, rfl⟩

theorem Granted.trans {a b : List (ℤ × ℤ)} (h : Granted g g' a) (h' : Granted g' g'' b) :
    Granted g g'' (a ++ b) := by
  refine ⟨h'.asking, fun x hx => ?_, fun p r => ?_, h'.active.trans h.active⟩
  · rcases List.mem_append.mp hx with hx | hx
    · exact h.asked x hx
    · have hasked := h'.asked x hx
      rw [h.request] at hasked
      exact (of_cleared hasked).2
  · rw [h'.request, h.request]
    simp only [List.mem_append]
    split_ifs <;> tauto

/-! ## One pass -/

theorem mem_activeWaiters {p rid : ℤ} :
    p ∈ activeWaiters g rid ↔ p ∈ g.waitPid rid ∧ isActive g p = true :=
  List.mem_filter

/-- Where the unit is free nobody holds it, so who is queued for it asks for it. -/
theorem Asking.request_of_free (h : g.Asking) {rid w : ℤ} (hr : validRid rid)
    (hav : g.available rid = 1) (hw : w ∈ activeWaiters g rid) : g.request w rid = 1 := by
  obtain ⟨hq, hact⟩ := mem_activeWaiters.mp hw
  refine (h.entries rid w hq hact).resolve_right fun hheld => ?_
  have hle : g.allocation w rid ≤ g.heldUnits rid :=
    List.single_le_sum (fun v hv => by
      obtain ⟨p, -, rfl⟩ := List.mem_map.mp hv
      exact h.units.rows.allocation_nonneg p rid) _
      (List.mem_map.mpr ⟨w, mem_pidIndices.mpr (validPid_of_isActive hact), rfl⟩)
  have := h.units.conserved rid hr
  omega

theorem request_granted (w rid p r : ℤ) :
    (g.granted w rid).request p r = if p = w ∧ r = rid then 0 else g.request p r :=
  setEntry_apply _ _ _ _ _ _

/-- An active process is given a free unit. Its entries in the queue stay. -/
theorem Asking.granted (h : g.Asking) {w rid : ℤ} (hw : isActive g w = true) (hr : validRid rid)
    (hav : 0 < g.available rid) : (g.granted w rid).Asking := by
  have hle : ∀ p r, (g.granted w rid).request p r = 1 → g.request p r = 1 := by
    intro p r h1
    rw [request_granted] at h1
    exact (of_cleared h1).2
  refine ⟨h.units.granted (validPid_of_isActive hw) hr hav, h.waiters, fun p r => ?_,
    fun p r r' h1 h2 => h.one p r r' (hle p r h1) (hle p r' h2), fun r p hp hact => ?_⟩
  · rw [request_granted]
    split_ifs
    · decide
    · exact h.request_le p r
  · rw [isActive_granted g rid hw] at hact
    have := h.units.rows.allocation_nonneg w rid
    rw [request_granted]
    change _ ∨ 0 < setEntry g.allocation w rid _ p r
    rw [setEntry_apply]
    split_ifs
    · exact Or.inr (by omega)
    · exact h.entries r p hp hact

/-- Entries may leave the queues. -/
theorem Asking.of_queues (h : g.Asking) {queues : ℤ → List ℤ}
    (hsub : ∀ r, queues r ⊆ g.waitPid r) : { g with waitPid := queues }.Asking :=
  ⟨h.units.congr rfl rfl rfl rfl, fun r hr => List.subset_nil.mp (h.waiters r hr ▸ hsub r),
    h.request_le, h.one, fun r p hp hact => h.entries r p (hsub r hp) hact⟩

theorem update_waitPid_subset {rid : ℤ} {queue : List ℤ} (h : queue ⊆ g.waitPid rid) (r : ℤ) :
    Function.update g.waitPid rid queue r ⊆ g.waitPid r := by
  rw [Function.update_apply]
  split_ifs with hrr
  · exact hrr ▸ h
  · exact List.Subset.refl _

/-- A pass grants a request or none, and leaves no inactive entry. -/
theorem granted_wakeWaiters (h : g.Asking) (rid : ℤ) :
    Granted g (deadlockWakeWaiters g rid).1
        ((deadlockWakeWaiters g rid).2.map fun pid => (pid, rid)) ∧
      (∀ p ∈ (deadlockWakeWaiters g rid).1.waitPid rid, isActive g p = true) ∧
      ∀ r, r ≠ rid → (deadlockWakeWaiters g rid).1.waitPid r = g.waitPid r := by
  by_cases hr : validRid rid
  · have hsub : activeWaiters g rid ⊆ g.waitPid rid := fun p hp => (mem_activeWaiters.mp hp).1
    rcases deadlockWakeWaiters_cases hr (h.units.available_nonneg rid hr)
        (h.units.available_le rid hr) with ⟨-, he⟩ | ⟨w, rest, hav, hfirst, he⟩
    all_goals
      rw [he]
      refine ⟨?_, fun p hp => ?_, fun r hne => Function.update_of_ne hne _ _⟩
    · exact ⟨h.of_queues (update_waitPid_subset hsub), fun _ hx => absurd hx List.not_mem_nil,
        fun _ _ => (if_neg List.not_mem_nil).symm, rfl⟩
    · change p ∈ Function.update g.waitPid rid (activeWaiters g rid) rid at hp
      rw [Function.update_self] at hp
      exact (mem_activeWaiters.mp hp).2
    · have hw : w ∈ activeWaiters g rid := hfirst ▸ List.mem_cons_self
      have hact := (mem_activeWaiters.mp hw).2
      refine ⟨(h.granted hact hr (by omega)).of_queues (update_waitPid_subset ?_), fun x hx => ?_,
        fun p r => ?_, isActive_granted g rid hact⟩
      · exact fun p hp => hsub (hfirst ▸ List.mem_cons_of_mem w hp)
      · obtain rfl := List.mem_singleton.mp hx
        exact h.request_of_free hr hav hw
      · simp only [List.map_cons, List.map_nil, List.mem_singleton, Prod.mk.injEq]
        exact request_granted w rid p r
    · change p ∈ Function.update g.waitPid rid rest rid at hp
      rw [Function.update_self] at hp
      exact (mem_activeWaiters.mp (hfirst ▸ List.mem_cons_of_mem w hp)).2
  · have he : deadlockWakeWaiters g rid = (g, []) := if_pos hr
    rw [he]
    refine ⟨.refl h, fun p hp => ?_, fun _ _ => rfl⟩
    rw [h.waiters rid hr] at hp
    exact absurd hp List.not_mem_nil

/-! ## All passes -/

theorem wakeList_woken : ∀ (rids : List ℤ) (s : ResourceGraph × List ℤ),
    (wakeList rids s).2 = s.2 ++ (wakeGrants rids s.1).map Prod.fst
  | [], s => by simp [wakeList, wakeGrants]
  | rid :: rids, s => by
    have ih := wakeList_woken rids
      ((deadlockWakeWaiters s.1 rid).1, s.2 ++ (deadlockWakeWaiters s.1 rid).2)
    simpa [wakeList, wakeGrants, List.map_map, Function.comp_def] using ih

theorem granted_wakeList : ∀ (rids : List ℤ) {s : ResourceGraph × List ℤ}, s.1.Asking →
    Granted s.1 (wakeList rids s).1 (wakeGrants rids s.1) ∧
      ∀ r, r ∈ rids ∨ (∀ p ∈ s.1.waitPid r, isActive s.1 p = true) →
        ∀ p ∈ (wakeList rids s).1.waitPid r, isActive s.1 p = true
  | [], s, h => ⟨.refl h, fun r hr => hr.resolve_left List.not_mem_nil⟩
  | rid :: rids, s, h => by
    obtain ⟨hg, hself, hother⟩ := granted_wakeWaiters h rid
    obtain ⟨hg', hq⟩ := granted_wakeList rids
      (s := ((deadlockWakeWaiters s.1 rid).1, s.2 ++ (deadlockWakeWaiters s.1 rid).2)) hg.asking
    refine ⟨hg.trans hg', fun r hr => ?_⟩
    dsimp only at hq
    rw [hg.active] at hq
    refine hq r ?_
    by_cases hrr : r = rid
    · exact Or.inr (hrr ▸ hself)
    · rw [hother r hrr]
      exact hr.imp_left fun hm => (List.mem_cons.mp hm).resolve_left hrr

/-- The grants that follow the clean-up of a process. -/
def resolveGrants (g : ResourceGraph) (pid : ℤ) : List (ℤ × ℤ) :=
  wakeGrants resourceIndices (deadlockCleanupProcess g pid)

theorem Asking.cleanup (h : g.Asking) {pid : ℤ} (hp : validPid pid) :
    (deadlockCleanupProcess g pid).Asking := by
  obtain ⟨ha, hr, hact, hw, -⟩ := deadlockCleanupProcess_spec h.units.rows hp
  have hle : ∀ p r, (deadlockCleanupProcess g pid).request p r = 1 → g.request p r = 1 := by
    intro p r h1
    rw [hr] at h1
    exact (of_cleared h1).2
  refine ⟨h.units.cleanup pid, fun r hr' => ?_, fun p r => ?_, fun p r r' h1 h2 => ?_,
    fun r p hm hpa => ?_⟩
  · rw [hw]
    exact h.waiters r hr'
  · rw [hr]
    split_ifs
    · decide
    · exact h.request_le p r
  · exact h.one p r r' (hle p r h1) (hle p r' h2)
  · rw [hw] at hm
    rw [isActive_iff (h.units.rows.cleanup pid), hact] at hpa
    split_ifs at hpa with hpp
    rw [hr, ha, if_neg hpp, if_neg hpp]
    exact h.entries r p hm ((isActive_iff h.units.rows).mpr hpa)

/-- `deadlock_resolve` takes the process out, and grants requests that others made. -/
structure Resolved (g : ResourceGraph) (pid : ℤ) : Prop where
  asking : (deadlockResolve g pid).1.Asking
  queues : (deadlockResolve g pid).1.QueuesActive
  woken : (deadlockResolve g pid).2 = (resolveGrants g pid).map Prod.fst
  asked : ∀ x ∈ resolveGrants g pid, x.1 ≠ pid ∧ g.request x.1 x.2 = 1
  request : ∀ p r, (deadlockResolve g pid).1.request p r =
    if p = pid ∨ (p, r) ∈ resolveGrants g pid then 0 else g.request p r

theorem Asking.resolve (h : g.Asking) {pid : ℤ} (hp : validPid pid) : Resolved g pid := by
  have he : deadlockResolve g pid = wakeList resourceIndices (deadlockCleanupProcess g pid, []) := by
    rw [deadlockResolve, if_neg (not_not.mpr hp), wakeAllWaiters_eq]
  have hc := h.cleanup hp
  obtain ⟨hg, hq⟩ := granted_wakeList resourceIndices (s := (deadlockCleanupProcess g pid, [])) hc
  have hreq := (deadlockCleanupProcess_spec h.units.rows hp).2.1
  refine ⟨he ▸ hg.asking, fun r p hm => ?_, ?_, fun x hx => ?_, fun p r => ?_⟩
  · rw [he] at hm ⊢
    rw [hg.active]
    refine hq r ?_ p hm
    by_cases hr : validRid r
    · exact Or.inl (mem_resourceIndices.mpr hr)
    · refine Or.inr fun p hp => ?_
      rw [hc.waiters r hr] at hp
      exact absurd hp List.not_mem_nil
  · rw [he, wakeList_woken]
    rfl
  · have hasked := hg.asked x hx
    rw [hreq] at hasked
    exact of_cleared hasked
  · rw [he, hg.request, hreq]
    change (if (p, r) ∈ resolveGrants g pid then _ else _) = _
    split_ifs <;> tauto

/-! ## A request -/

/-- What a request for a resource does, if the process asks for no other : it holds the
resource already, it is given it, or it waits for it. -/
structure Requested (g : ResourceGraph) (pid rid : ℤ) : Prop where
  asking : (deadlockRequest g pid rid).1.Asking
  queues : (deadlockRequest g pid rid).1.QueuesActive
  request : ∀ p r, (deadlockRequest g pid rid).1.request p r =
    if p = pid ∧ r = rid then if (deadlockRequest g pid rid).2 = -1 then 1 else 0
    else g.request p r
  result : (deadlockRequest g pid rid).2 = -1 ∨
    (deadlockRequest g pid rid).2 = 1 ∧ g.request pid rid = 0 ∨
    (deadlockRequest g pid rid).2 = 0 ∧ g.allocation pid rid ≤ 0 ∧ 0 < g.available rid

theorem isActive_requested (g : ResourceGraph) {pid : ℤ} (rid : ℤ) (hp : validPid pid) :
    isActive (g.requested pid rid) pid = true ∧
      ∀ p, isActive g p = true → isActive (g.requested pid rid) p = true := by
  have hself : isActive (g.requested pid rid) pid = true :=
    decide_eq_true ⟨hp.1, hp.2, Function.update_self _ _ _⟩
  refine ⟨hself, fun p hpa => ?_⟩
  by_cases hpp : p = pid
  · exact hpp ▸ hself
  · simp only [isActive, requested, Function.update_of_ne hpp]
    exact hpa

theorem Asking.requested (h : g.Asking) (hq : g.QueuesActive) {pid rid : ℤ} (hp : validPid pid)
    (hr : validRid rid) (hheld : g.allocation pid rid ≤ 0)
    (hone : ∀ r, g.request pid r = 1 → r = rid) : (g.requested pid rid).Asking := by
  have hreq : ∀ p r, (g.requested pid rid).request p r =
      if p = pid ∧ r = rid then 1 else g.request p r := fun p r => setEntry_apply _ _ _ _ _ _
  have hrow : ∀ r, (g.requested pid rid).request pid r = 1 → r = rid := by
    intro r h1
    rw [hreq] at h1
    split_ifs at h1 with hrr
    · exact hrr.2
    · exact hone r h1
  refine ⟨h.units.requested hp hr hheld, h.waiters, fun p r => ?_, fun p r r' h1 h2 => ?_,
    fun r p hm _ => ?_⟩
  · rw [hreq]
    split_ifs
    · exact le_refl _
    · exact h.request_le p r
  · by_cases hpp : p = pid
    · subst hpp
      rw [hrow r h1, hrow r' h2]
    · rw [hreq, if_neg fun he => hpp he.1] at h1 h2
      exact h.one p r r' h1 h2
  · rw [hreq]
    split_ifs
    · exact Or.inl rfl
    · exact h.entries r p hm (hq r p hm)

theorem mem_update_append {pid rid p r : ℤ}
    (h : p ∈ Function.update g.waitPid rid (g.waitPid rid ++ [pid]) r) :
    p ∈ g.waitPid r ∨ p = pid ∧ r = rid := by
  rw [Function.update_apply] at h
  split_ifs at h with hrr
  · exact (List.mem_append.mp h).imp (fun hm => hrr ▸ hm) fun hm => ⟨List.mem_singleton.mp hm, hrr⟩
  · exact Or.inl h

theorem Asking.deadlockRequest (h : g.Asking) (hq : g.QueuesActive) {pid rid : ℤ}
    (hp : validPid pid) (hr : validRid rid) (hone : ∀ r, g.request pid r = 1 → r = rid) :
    Requested g pid rid := by
  by_cases hheld : 0 < g.allocation pid rid
  · have he : FleetOS.deadlockRequest g pid rid = (g, 1) := by
      rw [FleetOS.deadlockRequest, if_neg (not_not.mpr hp), if_neg (not_not.mpr hr), if_pos hheld]
    have hzero : g.request pid rid = 0 := by
      by_contra hne
      have := h.units.rows.exclusive pid rid hne
      omega
    refine ⟨?_, ?_, fun p r => ?_, ?_⟩ <;> rw [he]
    · exact h
    · exact hq
    · split_ifs with hrr hres
      · cases hres
      · rw [hrr.1, hrr.2, hzero]
      · rfl
    · exact Or.inr (Or.inl ⟨rfl, hzero⟩)
  have hheld := not_lt.mp hheld
  have ha := h.requested hq hp hr hheld hone
  obtain ⟨hself, hact⟩ := isActive_requested g rid hp
  have hreq : ∀ p r, (g.requested pid rid).request p r =
      if p = pid ∧ r = rid then 1 else g.request p r := fun p r => setEntry_apply _ _ _ _ _ _
  rcases deadlockRequest_asked g hp hr hheld with ⟨hav, he⟩ | ⟨-, -, he⟩ | ⟨-, -, he⟩
  all_goals refine ⟨?_, ?_, fun p r => ?_, ?_⟩ <;> rw [he]
  · exact ha.granted hself hr hav
  · intro r p hm
    rw [isActive_granted _ rid hself]
    exact hact p (hq r p hm)
  · rw [request_granted, hreq]
    split_ifs with hrr hres
    · cases hres
    · rfl
    · rfl
  · exact Or.inr (Or.inr ⟨rfl, hheld, hav⟩)
  · exact ha
  · exact fun r p hm => hact p (hq r p hm)
  · exact hreq p r
  · exact Or.inl rfl
  · refine ⟨ha.units.congr rfl rfl rfl rfl, fun r hr' => ?_, ha.request_le, ha.one,
      fun r p hm hpa => ?_⟩
    · have hne : r ≠ rid := fun he => hr' (he ▸ hr)
      exact (Function.update_of_ne hne _ _).trans (h.waiters r hr')
    · rcases mem_update_append hm with hm | ⟨hpp, hrr⟩
      · exact ha.entries r p hm hpa
      · exact Or.inl ((hreq p r).trans (if_pos ⟨hpp, hrr⟩))
  · intro r p hm
    rcases mem_update_append hm with hm | ⟨hpp, -⟩
    · exact hact p (hq r p hm)
    · exact hpp ▸ hself
  · exact hreq p r
  · exact Or.inl rfl

theorem asking_deadlockInit (g : ResourceGraph) :
    (deadlockInit g).Asking ∧ (deadlockInit g).QueuesActive :=
  ⟨⟨units_deadlockInit g, fun _ _ => rfl, fun _ _ => Int.zero_le_ofNat 1,
    fun _ _ _ h _ => absurd h zero_ne_one, fun _ _ hm => absurd hm List.not_mem_nil⟩,
    fun _ _ hm => absurd hm List.not_mem_nil⟩

end ResourceGraph

end FleetOS
