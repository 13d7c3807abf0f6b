import FleetOS.GraphRows

/-!
# Processes that left the resource graph

A process is `Cleared` in a graph if it holds nothing, asks for nothing and is in no wait
queue. Requests of other processes, releases and wake-ups keep it so, and
`deadlock_resolve` makes it so (`cleared_deadlockResolve`) without serving it
(`not_mem_deadlockResolve`).
-/

namespace FleetOS

namespace ResourceGraph

structure Cleared (g : ResourceGraph) (x : ℤ) : Prop where
  allocation : ∀ r, g.allocation x r = 0
  request : ∀ r, g.request x r = 0
  waiting : ∀ r, x ∉ g.waitPid r

/-- Only resources that exist have waiters. -/
def WaitersValid (g : ResourceGraph) : Prop := ∀ r, ¬validRid r → g.waitPid r = []

variable {g : ResourceGraph} {x : ℤ}

/-! ## One entry -/

theorem Cleared.granted (h : g.Cleared x) {y : ℤ} (hy : y ≠ x) (rid : ℤ) :
    (g.granted y rid).Cleared x := by
  have hx : ∀ r, ¬(x = y ∧ r = rid) := fun r hr => hy hr.1.symm
  refine ⟨fun r => ?_, fun r => ?_, h.waiting⟩
  · change setEntry g.allocation y rid _ x r = 0
    rw [setEntry_apply, if_neg (hx r)]
    exact h.allocation r
  · change setEntry g.request y rid 0 x r = 0
    rw [setEntry_apply, if_neg (hx r)]
    exact h.request r

theorem Cleared.requested (h : g.Cleared x) {y : ℤ} (hy : y ≠ x) (rid : ℤ) :
    (g.requested y rid).Cleared x := by
  refine ⟨h.allocation, fun r => ?_, h.waiting⟩
  change setEntry g.request y rid 1 x r = 0
  rw [setEntry_apply, if_neg fun hr => hy hr.1.symm]
  exact h.request r

theorem Cleared.alloc (h : g.Cleared x) {y : ℤ} (hy : y ≠ x) (rid : ℤ) :
    (deadlockAlloc g y rid).1.Cleared x := by
  rcases deadlockAlloc_cases g y rid with he | ⟨-, -, -, he⟩
  · rw [he]
    exact h
  · rw [he]
    exact h.granted hy rid

/-- A request of another process. -/
theorem Cleared.deadlockRequest (h : g.Cleared x) {y : ℤ} (hy : y ≠ x) (rid : ℤ) :
    (deadlockRequest g y rid).1.Cleared x := by
  rcases deadlockRequest_cases g y rid with he | ⟨-, -, -, ⟨-, he⟩ | ⟨-, -, he⟩ | ⟨-, -, he⟩⟩
  · rw [he]
    exact h
  · rw [he]
    exact (h.requested hy rid).granted hy rid
  · rw [he]
    exact h.requested hy rid
  · rw [he]
    refine ⟨(h.requested hy rid).allocation, (h.requested hy rid).request, fun r => ?_⟩
    change x ∉ Function.update g.waitPid rid (g.waitPid rid ++ [y]) r
    rw [Function.update_apply]
    split_ifs
    · rw [List.mem_append, not_or]
      exact ⟨h.waiting rid, fun hm => hy (List.mem_singleton.mp hm).symm⟩
    · exact h.waiting r

theorem WaitersValid.deadlockRequest (h : g.WaitersValid) (y rid : ℤ) :
    (deadlockRequest g y rid).1.WaitersValid := by
  intro r hr
  rcases deadlockRequest_cases g y rid with he | ⟨-, hrid, -, ⟨-, he⟩ | ⟨-, -, he⟩ | ⟨-, -, he⟩⟩
  · rw [he]
    exact h r hr
  · rw [he]
    exact h r hr
  · rw [he]
    exact h r hr
  · rw [he]
    have hne : r ≠ rid := fun he => hr (he ▸ hrid)
    change Function.update g.waitPid rid _ r = []
    rw [Function.update_of_ne hne]
    exact h r hr

/-! ## Cleaning up -/

theorem Cleared.cleanup (h : g.Cleared x) (hg : g.Rows) (y : ℤ) :
    (deadlockCleanupProcess g y).Cleared x := by
  by_cases hy : validPid y
  · obtain ⟨ha, hr, -, hw, -⟩ := deadlockCleanupProcess_spec hg hy
    refine ⟨fun r => ?_, fun r => ?_, fun r => hw ▸ h.waiting r⟩
    · rw [ha, h.allocation, ite_self]
    · rw [hr, h.request, ite_self]
  · rw [deadlockCleanupProcess, if_pos hy]
    exact h

/-! ## Waking the waiters -/

/-- A scan keeps the queues, and the pids it leaves or serves were in the queue. -/
theorem scanWaiters_mem (rid : ℤ) : ∀ (ws : List ℤ) (g : ResourceGraph),
    (scanWaiters rid g ws).graph.waitPid = g.waitPid ∧
      (∀ p ∈ (scanWaiters rid g ws).entries, p ∈ ws ∨ p < 0) ∧
      ∀ p ∈ (scanWaiters rid g ws).woken, p ∈ ws
  | [], g => ⟨rfl, fun p hp => absurd hp List.not_mem_nil, fun p hp => absurd hp List.not_mem_nil⟩
  | w :: ws, g => by
    have hkeep : ∀ {g' : ResourceGraph} {e : ℤ} {woken : List ℤ}, g'.waitPid = g.waitPid →
        (e = w ∨ e < 0) → (woken = [] ∨ woken = [w]) →
        (scanWaiters rid g' ws).graph.waitPid = g.waitPid ∧
          (∀ p ∈ e :: (scanWaiters rid g' ws).entries, p ∈ w :: ws ∨ p < 0) ∧
          ∀ p ∈ woken ++ (scanWaiters rid g' ws).woken, p ∈ w :: ws := by
      intro g' e woken hg' he hwoken
      obtain ⟨hq, hent, hwk⟩ := scanWaiters_mem rid ws g'
      refine ⟨hq.trans hg', fun p hp => ?_, fun p hp => ?_⟩
      · rcases List.mem_cons.mp hp with rfl | hp
        · exact he.imp (fun h => List.mem_cons.mpr (Or.inl h)) id
        · exact (hent p hp).imp (List.mem_cons_of_mem w) id
      · rcases List.mem_append.mp hp with hp | hp
        · rcases hwoken with rfl | rfl
          · exact absurd hp List.not_mem_nil
          · exact List.mem_singleton.mp hp ▸ List.mem_cons_self
        · exact List.mem_cons_of_mem w (hwk p hp)
    have halloc : (deadlockAlloc g w rid).1.waitPid = g.waitPid := by
      rcases deadlockAlloc_cases g w rid with he | ⟨-, -, -, he⟩
      · rw [he]
      · rw [he]
        rfl
    rw [scanWaiters]
    split_ifs with hneg
    · exact hkeep rfl (Or.inl rfl) (Or.inl rfl)
    · exact hkeep rfl (Or.inr (by decide)) (Or.inl rfl)
    · exact hkeep halloc (Or.inr (by decide)) (Or.inr rfl)
    · exact hkeep rfl (Or.inl rfl) (Or.inl rfl)

theorem Cleared.scanWaiters {rid : ℤ} : ∀ (ws : List ℤ) {g : ResourceGraph}, g.Cleared x →
    x ∉ ws → (scanWaiters rid g ws).graph.Cleared x
  | [], _, h, _ => h
  | w :: ws, g, h, hx => by
    rw [List.mem_cons, not_or] at hx
    rw [FleetOS.scanWaiters]
    split_ifs
    · exact Cleared.scanWaiters ws h hx.2
    · exact Cleared.scanWaiters ws h hx.2
    · exact Cleared.scanWaiters ws (h.alloc (Ne.symm hx.1) rid) hx.2
    · exact Cleared.scanWaiters ws h hx.2

/-- An inactive process is taken out of the queue and is not served. -/
structure Absent (g : ResourceGraph) (x : ℤ) : Prop where
  inactive : g.active x = false
  allocation : ∀ r, g.allocation x r = 0
  request : ∀ r, g.request x r = 0

theorem Absent.scanWaiters {rid : ℤ} (hx : 0 ≤ x) : ∀ (ws : List ℤ) {g : ResourceGraph},
    g.Absent x → (scanWaiters rid g ws).graph.Absent x ∧
      x ∉ (scanWaiters rid g ws).entries ∧ x ∉ (scanWaiters rid g ws).woken
  | [], _, h => ⟨h, List.not_mem_nil, List.not_mem_nil⟩
  | w :: ws, g, h => by
    rw [FleetOS.scanWaiters]
    split_ifs with hneg hact hav
    · obtain ⟨ih, he, hw⟩ := Absent.scanWaiters hx ws h
      refine ⟨ih, ?_, hw⟩
      rw [List.mem_cons, not_or]
      exact ⟨by omega, he⟩
    · obtain ⟨ih, he, hw⟩ := Absent.scanWaiters hx ws h
      refine ⟨ih, ?_, hw⟩
      rw [List.mem_cons, not_or]
      exact ⟨by omega, he⟩
    all_goals
      have hwx : w ≠ x := by
        rintro rfl
        simp [isActive, h.inactive] at hact
    · have hxw : ∀ r, ¬(x = w ∧ r = rid) := fun r hr => hwx hr.1.symm
      have hg : (deadlockAlloc g w rid).1.Absent x := by
        rcases deadlockAlloc_cases g w rid with he | ⟨-, -, -, he⟩
        · rw [he]
          exact h
        · rw [he]
          refine ⟨?_, fun r => ?_, fun r => ?_⟩
          · change Function.update g.active w true x = false
            rw [Function.update_of_ne hwx.symm]
            exact h.inactive
          · change setEntry g.allocation w rid _ x r = 0
            rw [setEntry_apply, if_neg (hxw r)]
            exact h.allocation r
          · change setEntry g.request w rid 0 x r = 0
            rw [setEntry_apply, if_neg (hxw r)]
            exact h.request r
      obtain ⟨ih, he, hw⟩ := Absent.scanWaiters hx ws hg
      refine ⟨ih, ?_, ?_⟩ <;> rw [List.mem_cons, not_or]
      · exact ⟨by omega, he⟩
      · exact ⟨hwx.symm, hw⟩
    · obtain ⟨ih, he, hw⟩ := Absent.scanWaiters hx ws h
      refine ⟨ih, ?_, hw⟩
      rw [List.mem_cons, not_or]
      exact ⟨hwx.symm, he⟩

theorem deadlockWakeWaiters_waitPid (g : ResourceGraph) (rid r : ℤ) :
    (deadlockWakeWaiters g rid).1.waitPid r =
      if validRid rid ∧ r = rid then
        (scanWaiters rid g (g.waitPid rid)).entries.filter fun p => 0 ≤ p
      else g.waitPid r := by
  unfold deadlockWakeWaiters
  by_cases hv : validRid rid
  · rw [if_neg (not_not.mpr hv)]
    dsimp only
    rw [Function.update_apply, (scanWaiters_mem rid (g.waitPid rid) g).1]
    simp only [hv, true_and]
  · rw [if_pos hv, if_neg fun h => hv h.1]

theorem WaitersValid.wakeWaiters (h : g.WaitersValid) (rid : ℤ) :
    (deadlockWakeWaiters g rid).1.WaitersValid := by
  intro r hr
  have hne : ¬(validRid rid ∧ r = rid) := fun he => hr (he.2.symm ▸ he.1)
  rw [deadlockWakeWaiters_waitPid, if_neg hne]
  exact h r hr

theorem Cleared.wakeWaiters (h : g.Cleared x) (hx : 0 ≤ x) (rid : ℤ) :
    (deadlockWakeWaiters g rid).1.Cleared x ∧ x ∉ (deadlockWakeWaiters g rid).2 := by
  obtain ⟨-, hent, hwk⟩ := scanWaiters_mem rid (g.waitPid rid) g
  have hs : (FleetOS.scanWaiters rid g (g.waitPid rid)).graph.Cleared x :=
    h.scanWaiters (g.waitPid rid) (h.waiting rid)
  have hwait : ∀ r, x ∉ (deadlockWakeWaiters g rid).1.waitPid r := by
    intro r
    rw [deadlockWakeWaiters_waitPid]
    split_ifs
    · intro hm
      rcases hent x (List.mem_filter.mp hm).1 with hm | hm
      · exact h.waiting rid hm
      · omega
    · exact h.waiting r
  unfold deadlockWakeWaiters at hwait ⊢
  split_ifs at hwait ⊢
  · exact ⟨⟨hs.allocation, hs.request, hwait⟩, fun hm => h.waiting rid (hwk x hm)⟩
  · exact ⟨⟨h.allocation, h.request, hwait⟩, List.not_mem_nil⟩

theorem Absent.wakeWaiters (h : g.Absent x) (hx : 0 ≤ x) (rid : ℤ) :
    (deadlockWakeWaiters g rid).1.Absent x ∧ x ∉ (deadlockWakeWaiters g rid).2 ∧
      (validRid rid → x ∉ (deadlockWakeWaiters g rid).1.waitPid rid) := by
  obtain ⟨hs, he, hw⟩ : (FleetOS.scanWaiters rid g (g.waitPid rid)).graph.Absent x ∧ _ ∧ _ :=
    h.scanWaiters hx (g.waitPid rid)
  refine ⟨?_, ?_, fun hv => ?_⟩
  · unfold deadlockWakeWaiters
    split_ifs
    · exact ⟨hs.inactive, hs.allocation, hs.request⟩
    · exact h
  · unfold deadlockWakeWaiters
    split_ifs
    · exact hw
    · exact List.not_mem_nil
  · rw [deadlockWakeWaiters_waitPid, if_pos ⟨hv, rfl⟩]
    exact fun hm => he (List.mem_filter.mp hm).1

/-! ## All resources -/

/-- The loop of `wakeAllWaiters` over the resources `rids`. -/
def wakeList (rids : List ℤ) (s : ResourceGraph × List ℤ) : ResourceGraph × List ℤ :=
  rids.foldl
    (fun s rid => ((deadlockWakeWaiters s.1 rid).1, s.2 ++ (deadlockWakeWaiters s.1 rid).2)) s

theorem wakeAllWaiters_eq (g : ResourceGraph) : wakeAllWaiters g = wakeList resourceIndices (g, []) :=
  rfl

theorem WaitersValid.wakeAll (h : g.WaitersValid) : (wakeAllWaiters g).1.WaitersValid :=
  List.foldlRecOn (motive := fun s : ResourceGraph × List ℤ => s.1.WaitersValid) resourceIndices _ h
    fun _ hs rid _ => hs.wakeWaiters rid

theorem Cleared.wakeAll (h : g.Cleared x) (hx : 0 ≤ x) :
    (wakeAllWaiters g).1.Cleared x ∧ x ∉ (wakeAllWaiters g).2 := by
  rw [wakeAllWaiters_eq]
  refine List.foldlRecOn (motive := fun s : ResourceGraph × List ℤ => s.1.Cleared x ∧ x ∉ s.2)
    resourceIndices _ ⟨h, List.not_mem_nil⟩ fun s hs rid _ => ?_
  obtain ⟨hc, hn⟩ := hs.1.wakeWaiters hx rid
  exact ⟨hc, fun hm => (List.mem_append.mp hm).elim hs.2 hn⟩

theorem Absent.wakeList (hx : 0 ≤ x) : ∀ (rids : List ℤ) {s : ResourceGraph × List ℤ},
    s.1.Absent x → x ∉ s.2 → (wakeList rids s).1.Absent x ∧ x ∉ (wakeList rids s).2 ∧
      ∀ r, (r ∈ rids ∧ validRid r) ∨ x ∉ s.1.waitPid r → x ∉ (wakeList rids s).1.waitPid r
  | [], s, h, hn => ⟨h, hn, fun r hr => hr.resolve_left fun hr => absurd hr.1 List.not_mem_nil⟩
  | rid :: rids, s, h, hn => by
    obtain ⟨h₁, hn₁, hq₁⟩ := h.wakeWaiters hx rid
    obtain ⟨h₂, hn₂, hq₂⟩ := Absent.wakeList hx rids
      (s := ((deadlockWakeWaiters s.1 rid).1, s.2 ++ (deadlockWakeWaiters s.1 rid).2)) h₁
      fun hm => (List.mem_append.mp hm).elim hn hn₁
    refine ⟨h₂, hn₂, fun r hr => hq₂ r ?_⟩
    by_cases hrr : r = rid
    · subst hrr
      by_cases hv : validRid r
      · exact Or.inr (hq₁ hv)
      · right
        rw [deadlockWakeWaiters_waitPid, if_neg fun h => hv h.1]
        exact hr.resolve_left fun hr => hv hr.2
    · rcases hr with ⟨hm, hv⟩ | hr
      · exact Or.inl ⟨(List.mem_cons.mp hm).resolve_left hrr, hv⟩
      · right
        rw [deadlockWakeWaiters_waitPid, if_neg fun h => hrr h.2]
        exact hr

theorem absent_deadlockCleanupProcess (h : g.Rows) (hx : validPid x) :
    (deadlockCleanupProcess g x).Absent x := by
  obtain ⟨ha, hr, hact, -, -⟩ := deadlockCleanupProcess_spec h hx
  refine ⟨?_, fun r => ?_, fun r => ?_⟩
  · rw [hact, if_pos rfl]
  · rw [ha, if_pos rfl]
  · rw [hr, if_pos rfl]

/-- A process whose deadlock is resolved is not served. -/
theorem not_mem_deadlockResolve (h : g.Rows) (hx : validPid x) : x ∉ (deadlockResolve g x).2 := by
  rw [deadlockResolve, if_neg (not_not.mpr hx), wakeAllWaiters_eq]
  exact ((absent_deadlockCleanupProcess h hx).wakeList hx.1 resourceIndices
    (s := (deadlockCleanupProcess g x, [])) List.not_mem_nil).2.1

theorem cleared_deadlockResolve (h : g.Rows) (hw : g.WaitersValid) (hx : validPid x) :
    (deadlockResolve g x).1.Cleared x := by
  rw [deadlockResolve, if_neg (not_not.mpr hx), wakeAllWaiters_eq]
  obtain ⟨ha, -, hq⟩ := (absent_deadlockCleanupProcess h hx).wakeList hx.1 resourceIndices
    (s := (deadlockCleanupProcess g x, [])) List.not_mem_nil
  refine ⟨ha.allocation, ha.request, fun r => hq r ?_⟩
  by_cases hr : validRid r
  · exact Or.inl ⟨mem_resourceIndices.mpr hr, hr⟩
  · right
    obtain ⟨-, -, -, hwait, -⟩ := deadlockCleanupProcess_spec h hx
    change x ∉ (deadlockCleanupProcess g x).waitPid r
    rw [hwait, hw r hr]
    exact List.not_mem_nil

theorem Cleared.resolve (h : g.Cleared x) (hg : g.Rows) (hx : 0 ≤ x) (y : ℤ) :
    (deadlockResolve g y).1.Cleared x := by
  unfold deadlockResolve
  split_ifs
  · exact ((h.cleanup hg y).wakeAll hx).1
  · exact h

theorem WaitersValid.resolve (h : g.WaitersValid) (hg : g.Rows) (y : ℤ) :
    (deadlockResolve g y).1.WaitersValid := by
  by_cases hy : validPid y
  · rw [deadlockResolve, if_neg (not_not.mpr hy)]
    refine WaitersValid.wakeAll fun r hr => ?_
    rw [(deadlockCleanupProcess_spec hg hy).2.2.2.1]
    exact h r hr
  · rw [deadlockResolve, if_pos hy]
    exact h

end ResourceGraph

end FleetOS
