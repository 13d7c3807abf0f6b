import FleetOS.Deadlock

/-!
# The rows of the resource graph

In every graph the operations reach, only active processes hold or ask for anything, entries
are not negative, and no process asks for what it holds (`ResourceGraph.Rows`, kept by every
operation and so by every run : `rows_graphRun`).

Each operation has one lemma that says what it can do : `deadlockAlloc_cases`,
`deadlockRequest_cases` and `deadlockCleanupProcess_spec`.
-/

namespace FleetOS

/-! ## Table entries -/

theorem setEntry_apply (table : ℤ → ℤ → ℤ) (pid rid v p r : ℤ) :
    setEntry table pid rid v p r = if p = pid ∧ r = rid then v else table p r := by
  unfold setEntry
  by_cases hp : p = pid
  · subst hp
    rw [Function.update_self, Function.update_apply]
    simp
  · rw [Function.update_of_ne hp, if_neg fun h => hp h.1]

theorem setEntry_self (table : ℤ → ℤ → ℤ) (pid rid : ℤ) :
    setEntry table pid rid (table pid rid) = table := by
  simp [setEntry]

theorem setEntry_setEntry (table : ℤ → ℤ → ℤ) (pid rid v w : ℤ) :
    setEntry (setEntry table pid rid v) pid rid w = setEntry table pid rid w := by
  simp [setEntry]

theorem mem_pidIndices {p : ℤ} : p ∈ pidIndices ↔ validPid p := by
  simp only [pidIndices, validPid, List.mem_map, List.mem_range]
  constructor
  · rintro ⟨i, hi, rfl⟩
    omega
  · rintro ⟨h0, h1⟩
    exact ⟨p.toNat, by omega, by omega⟩

theorem mem_resourceIndices {r : ℤ} : r ∈ resourceIndices ↔ validRid r := by
  simp only [resourceIndices, validRid, List.mem_map, List.mem_range]
  constructor
  · rintro ⟨i, hi, rfl⟩
    omega
  · rintro ⟨h0, h1⟩
    exact ⟨r.toNat, by omega, by omega⟩

theorem nodup_pidIndices : pidIndices.Nodup :=
  List.nodup_range.map Nat.cast_injective

theorem nodup_resourceIndices : resourceIndices.Nodup :=
  List.nodup_range.map Nat.cast_injective

/-! ## The invariant -/

/-- Only active processes have entries, for resources that exist, and no process asks for
what it holds. -/
structure ResourceGraph.Rows (g : ResourceGraph) : Prop where
  active_valid : ∀ p, g.active p = true → validPid p
  allocation_active : ∀ p r, g.allocation p r ≠ 0 → validRid r ∧ g.active p = true
  request_active : ∀ p r, g.request p r ≠ 0 → validRid r ∧ g.active p = true
  allocation_nonneg : ∀ p r, 0 ≤ g.allocation p r
  request_nonneg : ∀ p r, 0 ≤ g.request p r
  exclusive : ∀ p r, g.request p r ≠ 0 → g.allocation p r = 0

theorem isActive_iff {g : ResourceGraph} (h : g.Rows) {p : ℤ} : isActive g p = true ↔ g.active p = true := by
  simp only [isActive, decide_eq_true_eq]
  constructor
  · rintro ⟨-, -, hp⟩
    exact hp
  · intro hp
    obtain ⟨h0, h1⟩ := h.active_valid p hp
    exact ⟨h0, h1, hp⟩

namespace ResourceGraph

theorem rows_deadlockInit (g : ResourceGraph) : (deadlockInit g).Rows := by
  refine ⟨fun p hp => ?_, fun p r h => ?_, fun p r h => ?_, fun p r => le_refl _, fun p r => le_refl _,
    fun p r _ => rfl⟩
  · cases hp
  · exact absurd rfl h
  · exact absurd rfl h

/-- The graph does not read the priorities and the wait queues. -/
theorem Rows.congr {g g' : ResourceGraph} (h : g.Rows) (ha : g'.allocation = g.allocation)
    (hr : g'.request = g.request) (hact : g'.active = g.active) : g'.Rows := by
  refine ⟨?_, ?_, ?_, ?_, ?_, ?_⟩
  · simpa only [hact] using h.active_valid
  · simpa only [ha, hact] using h.allocation_active
  · simpa only [hr, hact] using h.request_active
  · simpa only [ha] using h.allocation_nonneg
  · simpa only [hr] using h.request_nonneg
  · simpa only [ha, hr] using h.exclusive

/-- The graph after a successful `deadlock_alloc`. -/
def granted (g : ResourceGraph) (pid rid : ℤ) : ResourceGraph :=
  { g with
    available := Function.update g.available rid (g.available rid - 1)
    allocation := setEntry g.allocation pid rid (g.allocation pid rid + 1)
    request := setEntry g.request pid rid 0
    active := Function.update g.active pid true }

theorem deadlockAlloc_cases (g : ResourceGraph) (pid rid : ℤ) :
    deadlockAlloc g pid rid = (g, -1) ∨
      (validPid pid ∧ validRid rid ∧ 0 < g.available rid ∧
        deadlockAlloc g pid rid = (g.granted pid rid, 0)) := by
  unfold deadlockAlloc
  split_ifs with hp hr ha
  · exact Or.inl rfl
  · exact Or.inr ⟨hp, hr, not_le.mp ha, rfl⟩
  · exact Or.inl rfl
  · exact Or.inl rfl

theorem Rows.granted {g : ResourceGraph} (h : g.Rows) {pid rid : ℤ} (hp : validPid pid)
    (hr : validRid rid) : (g.granted pid rid).Rows := by
  have hactive : ∀ p, g.active p = true → (g.granted pid rid).active p = true := by
    intro p hpa
    change Function.update g.active pid true p = true
    rw [Function.update_apply]
    split_ifs
    · rfl
    · exact hpa
  have hself : (g.granted pid rid).active pid = true := Function.update_self _ _ _
  refine ⟨fun p hpa => ?_, fun p r hne => ?_, fun p r hne => ?_, fun p r => ?_, fun p r => ?_,
    fun p r hne => ?_⟩
  · by_cases hpp : p = pid
    · exact hpp ▸ hp
    · have hpa : Function.update g.active pid true p = true := hpa
      rw [Function.update_of_ne hpp] at hpa
      exact h.active_valid p hpa
  all_goals dsimp only [ResourceGraph.granted] at *
  · rw [setEntry_apply] at hne
    split_ifs at hne with he
    · exact ⟨he.2 ▸ hr, he.1 ▸ hself⟩
    · exact ⟨(h.allocation_active p r hne).1, hactive p (h.allocation_active p r hne).2⟩
  · rw [setEntry_apply] at hne
    split_ifs at hne with he
    · exact absurd rfl hne
    · exact ⟨(h.request_active p r hne).1, hactive p (h.request_active p r hne).2⟩
  · rw [setEntry_apply]
    have := h.allocation_nonneg pid rid
    split_ifs
    · omega
    · exact h.allocation_nonneg p r
  · rw [setEntry_apply]
    split_ifs
    · exact le_refl _
    · exact h.request_nonneg p r
  · rw [setEntry_apply] at hne ⊢
    split_ifs at hne ⊢ with he
    · exact absurd rfl hne
    · exact h.exclusive p r hne

theorem Rows.alloc {g : ResourceGraph} (h : g.Rows) (pid rid : ℤ) :
    (deadlockAlloc g pid rid).1.Rows := by
  rcases deadlockAlloc_cases g pid rid with he | ⟨hp, hr, -, he⟩
  · rw [he]
    exact h
  · rw [he]
    exact h.granted hp hr

/-- The graph once a process asks for a resource. -/
def requested (g : ResourceGraph) (pid rid : ℤ) : ResourceGraph :=
  { g with
    request := setEntry g.request pid rid 1
    active := Function.update g.active pid true }

/-- What a request does that a process may make for a resource it does not hold. -/
theorem deadlockRequest_asked (g : ResourceGraph) {pid rid : ℤ} (hp : validPid pid)
    (hr : validRid rid) (hheld : g.allocation pid rid ≤ 0) :
    (0 < g.available rid ∧
      deadlockRequest g pid rid = ((g.requested pid rid).granted pid rid, 0)) ∨
    (g.available rid ≤ 0 ∧ maxProcs ≤ (g.waitPid rid).length ∧
      deadlockRequest g pid rid = (g.requested pid rid, -1)) ∨
    (g.available rid ≤ 0 ∧ (g.waitPid rid).length < maxProcs ∧
      deadlockRequest g pid rid = ({ g.requested pid rid with
        waitPid := Function.update g.waitPid rid (g.waitPid rid ++ [pid]) }, -1)) := by
  rw [deadlockRequest, if_neg (not_not.mpr hp), if_neg (not_not.mpr hr), if_neg (not_lt.mpr hheld)]
  dsimp only
  split_ifs with hav hfull
  · refine Or.inl ⟨hav, ?_⟩
    have hav' : ¬(g.requested pid rid).available rid ≤ 0 := not_le.mpr hav
    change deadlockAlloc (g.requested pid rid) pid rid = _
    rw [deadlockAlloc, if_neg (not_not.mpr hp), if_neg (not_not.mpr hr), if_neg hav']
    rfl
  · exact Or.inr (Or.inr ⟨not_lt.mp hav, hfull, rfl⟩)
  · exact Or.inr (Or.inl ⟨not_lt.mp hav, not_lt.mp hfull, rfl⟩)

/-- Everything `deadlock_request` can do. -/
theorem deadlockRequest_cases (g : ResourceGraph) (pid rid : ℤ) :
    (deadlockRequest g pid rid).1 = g ∨
      (validPid pid ∧ validRid rid ∧ g.allocation pid rid ≤ 0 ∧
        ((0 < g.available rid ∧
          deadlockRequest g pid rid = ((g.requested pid rid).granted pid rid, 0)) ∨
        (g.available rid ≤ 0 ∧ maxProcs ≤ (g.waitPid rid).length ∧
          deadlockRequest g pid rid = (g.requested pid rid, -1)) ∨
        (g.available rid ≤ 0 ∧ (g.waitPid rid).length < maxProcs ∧
          deadlockRequest g pid rid = ({ g.requested pid rid with
            waitPid := Function.update g.waitPid rid (g.waitPid rid ++ [pid]) }, -1)))) := by
  by_cases hp : validPid pid
  · by_cases hr : validRid rid
    · by_cases hheld : 0 < g.allocation pid rid
      · left
        rw [deadlockRequest, if_neg (not_not.mpr hp), if_neg (not_not.mpr hr), if_pos hheld]
      · have hheld := not_lt.mp hheld
        exact Or.inr ⟨hp, hr, hheld, deadlockRequest_asked g hp hr hheld⟩
    · left
      rw [deadlockRequest, if_neg (not_not.mpr hp), if_pos hr]
  · left
    rw [deadlockRequest, if_pos hp]

theorem Rows.requested {g : ResourceGraph} (h : g.Rows) {pid rid : ℤ} (hp : validPid pid)
    (hr : validRid rid) (hheld : g.allocation pid rid ≤ 0) : (g.requested pid rid).Rows := by
  have hactive : ∀ p, g.active p = true → (g.requested pid rid).active p = true := by
    intro p hpa
    change Function.update g.active pid true p = true
    rw [Function.update_apply]
    split_ifs
    · rfl
    · exact hpa
  refine ⟨fun p hpa => ?_, fun p r hne => ?_, fun p r hne => ?_, h.allocation_nonneg, fun p r => ?_,
    fun p r hne => ?_⟩
  · by_cases hpp : p = pid
    · exact hpp ▸ hp
    · have hpa : Function.update g.active pid true p = true := hpa
      rw [Function.update_of_ne hpp] at hpa
      exact h.active_valid p hpa
  · exact ⟨(h.allocation_active p r hne).1, hactive p (h.allocation_active p r hne).2⟩
  all_goals dsimp only [ResourceGraph.requested] at *
  · rw [setEntry_apply] at hne
    split_ifs at hne with he
    · exact ⟨he.2 ▸ hr, he.1 ▸ Function.update_self _ _ _⟩
    · exact ⟨(h.request_active p r hne).1, hactive p (h.request_active p r hne).2⟩
  · rw [setEntry_apply]
    split_ifs
    · decide
    · exact h.request_nonneg p r
  · rw [setEntry_apply] at hne
    split_ifs at hne with he
    · have := h.allocation_nonneg pid rid
      rw [he.1, he.2]
      omega
    · exact h.exclusive p r hne

theorem Rows.deadlockRequest {g : ResourceGraph} (h : g.Rows) (pid rid : ℤ) :
    (deadlockRequest g pid rid).1.Rows := by
  rcases deadlockRequest_cases g pid rid with he | ⟨hp, hr, hheld, ⟨-, he⟩ | ⟨-, -, he⟩ | ⟨-, -, he⟩⟩
  · rw [he]
    exact h
  · rw [he]
    exact (h.requested hp hr hheld).granted hp hr
  · rw [he]
    exact h.requested hp hr hheld
  · rw [he]
    exact (h.requested hp hr hheld).congr rfl rfl rfl

/-- Lowering the entries of a graph. -/
theorem Rows.lower {g g' : ResourceGraph} (h : g.Rows)
    (ha : ∀ p r, g'.allocation p r ≤ g.allocation p r) (ha0 : ∀ p r, 0 ≤ g'.allocation p r)
    (hr : ∀ p r, g'.request p r = g.request p r ∨ g'.request p r = 0)
    (hv : ∀ p, g'.active p = true → g.active p = true)
    (hact : ∀ p, g.active p = true → g'.active p = true ∨
      ∀ r, g'.allocation p r = 0 ∧ g'.request p r = 0) : g'.Rows := by
  have halloc : ∀ p r, g'.allocation p r ≠ 0 → g.allocation p r ≠ 0 := by
    intro p r hne h0
    have := ha p r
    have := ha0 p r
    omega
  have hreq : ∀ p r, g'.request p r ≠ 0 → g.request p r ≠ 0 := by
    intro p r hne
    rcases hr p r with he | he
    · exact he ▸ hne
    · exact absurd he hne
  refine ⟨fun p hp => h.active_valid p (hv p hp), fun p r hne => ?_, fun p r hne => ?_, ha0,
    fun p r => ?_, fun p r hne => ?_⟩
  · obtain ⟨hrid, hpa⟩ := h.allocation_active p r (halloc p r hne)
    exact ⟨hrid, (hact p hpa).resolve_right fun h0 => hne (h0 r).1⟩
  · obtain ⟨hrid, hpa⟩ := h.request_active p r (hreq p r hne)
    exact ⟨hrid, (hact p hpa).resolve_right fun h0 => hne (h0 r).2⟩
  · rcases hr p r with he | he
    · exact he ▸ h.request_nonneg p r
    · exact he ▸ le_refl _
  · have := h.exclusive p r (hreq p r hne)
    have := ha p r
    have := ha0 p r
    omega

theorem Rows.release {g : ResourceGraph} (h : g.Rows) (pid rid : ℤ) :
    (deadlockRelease g pid rid).Rows := by
  unfold deadlockRelease
  split_ifs with hp hr hheld
  · exact h
  rotate_left
  · exact h
  · exact h
  · refine h.lower (fun p r => ?_) (fun p r => ?_) (fun p r => Or.inl rfl) (fun p hpa => hpa)
      fun p hpa => Or.inl hpa
    · dsimp only
      rw [setEntry_apply]
      split_ifs with he
      · rw [he.1, he.2]
        omega
      · exact le_refl _
    · dsimp only
      rw [setEntry_apply]
      split_ifs
      · omega
      · exact h.allocation_nonneg p r

/-! ## Cleaning up after a process -/

/-- The units `pid` holds of the resources `rids` are given back, and it asks for none. -/
structure Cleaned (g g' : ResourceGraph) (pid : ℤ) (rids : List ℤ) : Prop where
  allocation : ∀ p r, g'.allocation p r = if p = pid ∧ r ∈ rids then 0 else g.allocation p r
  request : ∀ p r, g'.request p r = if p = pid ∧ r ∈ rids then 0 else g.request p r
  available : ∀ r, g'.available r = g.available r + if r ∈ rids then g.allocation pid r else 0
  active : g'.active = g.active
  waitPid : g'.waitPid = g.waitPid
  priority : g'.priority = g.priority

theorem releaseAll_eq {pid rid : ℤ} (hp : validPid pid) (hr : validRid rid) :
    ∀ (fuel : ℕ) (g : ResourceGraph), g.allocation pid rid = fuel →
      releaseAll pid rid fuel g = { g with
        allocation := setEntry g.allocation pid rid 0
        available := Function.update g.available rid (g.available rid + fuel) }
  | 0, g, h => by
    have ha : setEntry g.allocation pid rid 0 = g.allocation := by
      conv_rhs => rw [← setEntry_self g.allocation pid rid, h]
      rfl
    simp [releaseAll, ha]
  | fuel + 1, g, h => by
    have hpos : 0 < g.allocation pid rid := by omega
    have he : deadlockRelease g pid rid = { g with
        allocation := setEntry g.allocation pid rid fuel
        available := Function.update g.available rid (g.available rid + 1) } := by
      have hf : g.allocation pid rid - 1 = fuel := by omega
      simp only [deadlockRelease, hp, hr, not_true, if_false, not_le.mpr hpos, hf]
    rw [releaseAll, if_pos hpos, he, releaseAll_eq hp hr fuel _ (by simp [setEntry_apply])]
    simp only [setEntry_setEntry, Function.update_idem, Function.update_self]
    congr 2
    push_cast
    ring

theorem cleaned_foldl {pid : ℤ} (hp : validPid pid) :
    ∀ (rids : List ℤ) (g : ResourceGraph), (∀ r ∈ rids, validRid r) → rids.Nodup →
      (∀ r ∈ rids, 0 ≤ g.allocation pid r) → Cleaned g (rids.foldl (cleanupResource pid) g) pid rids
  | [], g, _, _, _ => by
    refine ⟨fun p r => ?_, fun p r => ?_, fun r => ?_, rfl, rfl, rfl⟩ <;> simp
  | rid :: rids, g, hv, hnd, h0 => by
    have hr := hv rid List.mem_cons_self
    obtain ⟨hnot, hnd⟩ := List.nodup_cons.mp hnd
    have he : cleanupResource pid g rid = { g with
        allocation := setEntry g.allocation pid rid 0
        available := Function.update g.available rid (g.available rid + g.allocation pid rid)
        request := setEntry g.request pid rid 0 } := by
      have hcast : ((g.allocation pid rid).toNat : ℤ) = g.allocation pid rid :=
        Int.toNat_of_nonneg (h0 rid List.mem_cons_self)
      rw [cleanupResource, releaseAll_eq hp hr _ g hcast.symm, hcast]
    have ih := cleaned_foldl hp rids (cleanupResource pid g rid)
      (fun r hr => hv r (List.mem_cons_of_mem rid hr)) hnd (by
        intro r hr
        rw [he]
        dsimp only
        rw [setEntry_apply]
        split_ifs
        · exact le_refl _
        · exact h0 r (List.mem_cons_of_mem rid hr))
    rw [List.foldl_cons]
    refine ⟨fun p r => ?_, fun p r => ?_, fun r => ?_, ?_, ?_, ?_⟩
    · rw [ih.allocation, he]
      simp only [setEntry_apply, List.mem_cons]
      split_ifs <;> tauto
    · rw [ih.request, he]
      simp only [setEntry_apply, List.mem_cons]
      split_ifs <;> tauto
    · rw [ih.available, he]
      dsimp only
      by_cases hrr : r = rid
      · subst hrr
        simp [hnot]
      · simp [setEntry_apply, hrr]
    · rw [ih.active, he]
    · rw [ih.waitPid, he]
    · rw [ih.priority, he]

/-- All resources are cleaned and the process is no longer active. -/
theorem cleaned_deadlockCleanupProcess {g : ResourceGraph} {pid : ℤ} (hp : validPid pid)
    (h : ∀ r, validRid r → 0 ≤ g.allocation pid r) :
    ∃ g', Cleaned g g' pid resourceIndices ∧
      deadlockCleanupProcess g pid = { g' with active := Function.update g'.active pid false } := by
  refine ⟨resourceIndices.foldl (cleanupResource pid) g, ?_, ?_⟩
  · exact cleaned_foldl hp resourceIndices g (fun r hr => mem_resourceIndices.mp hr)
      nodup_resourceIndices fun r hr => h r (mem_resourceIndices.mp hr)
  · rw [deadlockCleanupProcess, if_neg (not_not.mpr hp)]

/-- What `deadlock_cleanup_process` leaves of a graph. -/
theorem deadlockCleanupProcess_spec {g : ResourceGraph} (h : g.Rows) {pid : ℤ}
    (hp : validPid pid) :
    (∀ p r, (deadlockCleanupProcess g pid).allocation p r =
      if p = pid then 0 else g.allocation p r) ∧
    (∀ p r, (deadlockCleanupProcess g pid).request p r = if p = pid then 0 else g.request p r) ∧
    (∀ p, (deadlockCleanupProcess g pid).active p = if p = pid then false else g.active p) ∧
    (deadlockCleanupProcess g pid).waitPid = g.waitPid ∧
    (deadlockCleanupProcess g pid).priority = g.priority := by
  obtain ⟨g', hc, he⟩ := cleaned_deadlockCleanupProcess hp fun r _ => h.allocation_nonneg pid r
  rw [he]
  refine ⟨fun p r => ?_, fun p r => ?_, fun p => ?_, hc.waitPid, hc.priority⟩
  · dsimp only
    rw [hc.allocation]
    simp only [mem_resourceIndices]
    by_cases hpp : p = pid
    · by_cases hr : validRid r
      · rw [if_pos ⟨hpp, hr⟩, if_pos hpp]
      · rw [if_neg fun hh => hr hh.2, if_pos hpp]
        exact not_not.mp fun hne => hr (h.allocation_active p r hne).1
    · rw [if_neg fun hh => hpp hh.1, if_neg hpp]
  · dsimp only
    rw [hc.request]
    simp only [mem_resourceIndices]
    by_cases hpp : p = pid
    · by_cases hr : validRid r
      · rw [if_pos ⟨hpp, hr⟩, if_pos hpp]
      · rw [if_neg fun hh => hr hh.2, if_pos hpp]
        exact not_not.mp fun hne => hr (h.request_active p r hne).1
    · rw [if_neg fun hh => hpp hh.1, if_neg hpp]
  · dsimp only
    rw [hc.active, Function.update_apply]

/-- The units the process held are free. -/
theorem available_deadlockCleanupProcess {g : ResourceGraph} (h : g.Rows) {pid : ℤ}
    (hp : validPid pid) (r : ℤ) :
    (deadlockCleanupProcess g pid).available r = g.available r + g.allocation pid r := by
  obtain ⟨g', hc, he⟩ := cleaned_deadlockCleanupProcess hp fun r _ => h.allocation_nonneg pid r
  rw [he]
  dsimp only
  rw [hc.available]
  by_cases hr : validRid r
  · rw [if_pos (mem_resourceIndices.mpr hr)]
  · have h0 : g.allocation pid r = 0 := not_not.mp fun hne => hr (h.allocation_active pid r hne).1
    rw [if_neg fun hmem => hr (mem_resourceIndices.mp hmem), h0]

theorem Rows.cleanup {g : ResourceGraph} (h : g.Rows) (pid : ℤ) :
    (deadlockCleanupProcess g pid).Rows := by
  by_cases hp : validPid pid
  · obtain ⟨ha, hr, hact, -, -⟩ := deadlockCleanupProcess_spec h hp
    refine h.lower (fun p r => ?_) (fun p r => ?_) (fun p r => ?_) (fun p hpa => ?_) fun p hpa => ?_
    · have := h.allocation_nonneg p r
      rw [ha]
      split_ifs
      · exact this
      · exact le_refl _
    · have := h.allocation_nonneg p r
      rw [ha]
      split_ifs
      · exact le_refl _
      · exact this
    · rw [hr]
      split_ifs
      · exact Or.inr rfl
      · exact Or.inl rfl
    · rw [hact] at hpa
      split_ifs at hpa
      exact hpa
    · by_cases hpp : p = pid
      · exact Or.inr fun r => ⟨by rw [ha, if_pos hpp], by rw [hr, if_pos hpp]⟩
      · exact Or.inl (by rw [hact, if_neg hpp]; exact hpa)
  · rw [deadlockCleanupProcess, if_pos hp]
    exact h

/-! ## Waking the waiters -/

/-- What allocations keep and what does not read the wait queues survives a pass over one. -/
theorem scanWaiters_keeps {P : ResourceGraph → Prop}
    (halloc : ∀ g pid rid, P g → P (deadlockAlloc g pid rid).1) {rid : ℤ} :
    ∀ (ws : List ℤ) (g : ResourceGraph), P g → P (scanWaiters rid g ws).graph
  | [], _, h => h
  | w :: ws, g, h => by
    rw [FleetOS.scanWaiters]
    split_ifs
    · exact scanWaiters_keeps halloc ws g h
    · exact scanWaiters_keeps halloc ws g h
    · exact scanWaiters_keeps halloc ws _ (halloc g w rid h)
    · exact scanWaiters_keeps halloc ws g h

theorem wakeWaiters_keeps {P : ResourceGraph → Prop}
    (halloc : ∀ g pid rid, P g → P (deadlockAlloc g pid rid).1)
    (hwait : ∀ g queues, P g → P { g with waitPid := queues }) {g : ResourceGraph} (h : P g)
    (rid : ℤ) : P (deadlockWakeWaiters g rid).1 := by
  unfold deadlockWakeWaiters
  split_ifs
  · exact hwait _ _ (scanWaiters_keeps halloc (g.waitPid rid) g h)
  · exact h

/-- What every pass keeps survives the passes over all queues. -/
theorem wakeAll_keeps {P : ResourceGraph → Prop}
    (hwake : ∀ g rid, P g → P (deadlockWakeWaiters g rid).1) {g : ResourceGraph} (h : P g) :
    P (wakeAllWaiters g).1 :=
  List.foldlRecOn (motive := fun s : ResourceGraph × List ℤ => P s.1) resourceIndices
    (fun s rid => ((deadlockWakeWaiters s.1 rid).1, s.2 ++ (deadlockWakeWaiters s.1 rid).2))
    h fun s hs rid _ => hwake s.1 rid hs

theorem Rows.wakeWaiters {g : ResourceGraph} (h : g.Rows) (rid : ℤ) :
    (deadlockWakeWaiters g rid).1.Rows :=
  wakeWaiters_keeps (fun _ pid rid h => h.alloc pid rid) (fun _ _ h => h.congr rfl rfl rfl) h rid

theorem Rows.wakeAll {g : ResourceGraph} (h : g.Rows) : (wakeAllWaiters g).1.Rows :=
  wakeAll_keeps (fun _ rid h => h.wakeWaiters rid) h

theorem Rows.resolve {g : ResourceGraph} (h : g.Rows) (pid : ℤ) :
    (deadlockResolve g pid).1.Rows := by
  unfold deadlockResolve
  split_ifs
  · exact (h.cleanup pid).wakeAll
  · exact h

end ResourceGraph

/-! ## Runs -/

/-- A call of the module's interface. -/
inductive GraphCall
  | setPriority (pid : ℤ) (p : Priority)
  | alloc (pid rid : ℤ)
  | request (pid rid : ℤ)
  | release (pid rid : ℤ)
  | cleanupProcess (pid : ℤ)
  | wakeWaiters (rid : ℤ)
  | resolve (pid : ℤ)

def graphCall (g : ResourceGraph) : GraphCall → ResourceGraph
  | .setPriority pid p => deadlockSetPriority g pid p
  | .alloc pid rid => (deadlockAlloc g pid rid).1
  | .request pid rid => (deadlockRequest g pid rid).1
  | .release pid rid => deadlockRelease g pid rid
  | .cleanupProcess pid => deadlockCleanupProcess g pid
  | .wakeWaiters rid => (deadlockWakeWaiters g rid).1
  | .resolve pid => (deadlockResolve g pid).1

/-- The tables of a program that has just started. -/
def ResourceGraph.zero : ResourceGraph :=
  ⟨fun _ _ => 0, fun _ _ => 0, fun _ => 0, fun _ => false, fun _ => [], fun _ => .critical⟩

/-- The calls after `deadlock_init`, which finds the tables as `g₀`. -/
def graphRun (g₀ : ResourceGraph) (calls : List GraphCall) : ResourceGraph :=
  calls.foldl graphCall (deadlockInit g₀)

theorem rows_graphCall {g : ResourceGraph} (h : g.Rows) (call : GraphCall) :
    (graphCall g call).Rows := by
  cases call with
  | setPriority pid p =>
    simp only [graphCall, deadlockSetPriority]
    split_ifs
    · exact h.congr rfl rfl rfl
    · exact h
  | alloc pid rid => exact h.alloc pid rid
  | request pid rid => exact h.deadlockRequest pid rid
  | release pid rid => exact h.release pid rid
  | cleanupProcess pid => exact h.cleanup pid
  | wakeWaiters rid => exact h.wakeWaiters rid
  | resolve pid => exact h.resolve pid

theorem rows_graphRun (g₀ : ResourceGraph) (calls : List GraphCall) : (graphRun g₀ calls).Rows :=
  List.foldlRecOn calls graphCall (ResourceGraph.rows_deadlockInit g₀)
    fun _ h call _ => rows_graphCall h call

end FleetOS
