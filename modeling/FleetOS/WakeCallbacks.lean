import FleetOS.Compaction
import FleetOS.ResourceHandover

/-!
# The callback of a hand-over

`deadlock_wake_waiters` in the steps of the code : a loop over the queue that puts `-1` in the
place of a waiter, allocates the resource and calls back in between, and a loop that closes the
gaps in place. The callback has a state of its own and sees the graph as it is when it is called.

With at most one unit the two loops do what they should (`wakeWaiters_hands_over`) : the unit
goes to the first active waiter, the callback is called once, with the unit allocated, and the
other active waiters stay in their order. The graph is the one that `deadlockWakeWaiters` gives
(`deadlockWakeWaiters_eq_inPlace`).
-/

namespace FleetOS

open ResourceGraph

section code

variable {σ : Type*} (victimCb : ResourceGraph → ℤ → ℤ → σ → σ) (rid tick : ℤ)

def setQueue (g : ResourceGraph) (rid : ℤ) (queue : List ℤ) : ResourceGraph :=
  { g with waitPid := Function.update g.waitPid rid queue }

/-- The body of the first loop, for entry `i`. -/
def scanEntry (s : ResourceGraph × σ) (i : ℕ) : ResourceGraph × σ :=
  let g := s.1
  let wpid := (g.waitPid rid).getD i (-1)
  if wpid < 0 then s
  else if !isActive g wpid then (setQueue g rid ((g.waitPid rid).set i (-1)), s.2)
  else if 0 < g.available rid then
    let g := (deadlockAlloc g wpid rid).1
    let g := setQueue g rid ((g.waitPid rid).set i (-1))
    (g, victimCb g wpid tick s.2)
  else s

/-- `deadlock_wake_waiters`, with the state of the callback. The first `wait_count` entries of the
array are what is left of the queue. -/
def deadlockWakeInPlace (g : ResourceGraph) (s : σ) : ResourceGraph × σ :=
  if ¬validRid rid then (g, s)
  else
    let r := (List.range (g.waitPid rid).length).foldl (scanEntry victimCb rid tick) (g, s)
    let q := Compaction.compact (fun p => 0 ≤ p) (r.1.waitPid rid)
    (setQueue r.1 rid (q.1.take q.2), r.2)

end code

/-! ## The first loop -/

section scan

variable {σ : Type*} (victimCb : ResourceGraph → ℤ → ℤ → σ → σ) {rid : ℤ} (tick : ℤ)
  {g : ResourceGraph}

/-- What the first loop leaves in the place of a waiter that it does not serve. -/
def hole (g : ResourceGraph) (p : ℤ) : ℤ := if p < 0 ∨ isActive g p = true then p else -1

theorem filter_hole (g : ResourceGraph) (ws : List ℤ) :
    ((ws.map (hole g)).filter fun p => 0 ≤ p) = ws.filter (isActive g) := by
  induction ws with
  | nil => rfl
  | cons w ws ih =>
    rw [List.map_cons]
    by_cases hact : isActive g w = true
    · have hw := (validPid_of_isActive hact).1
      have hh : hole g w = w := if_pos (Or.inr hact)
      rw [hh, List.filter_cons_of_pos hact, List.filter_cons_of_pos (by simpa using hw), ih]
    · have hneg : hole g w < 0 := by
        unfold hole
        split_ifs with h
        · exact h.resolve_right hact
        · decide
      rw [List.filter_cons_of_neg hact, List.filter_cons_of_neg (by simpa using hneg), ih]

@[simp] theorem setQueue_waitPid (g : ResourceGraph) (rid : ℤ) (q : List ℤ) :
    (setQueue g rid q).waitPid rid = q :=
  Function.update_self _ _ _

@[simp] theorem setQueue_setQueue (g : ResourceGraph) (rid : ℤ) (q q' : List ℤ) :
    setQueue (setQueue g rid q) rid q' = setQueue g rid q' := by
  simp [setQueue]

@[simp] theorem isActive_setQueue (g : ResourceGraph) (rid : ℤ) (q : List ℤ) :
    isActive (setQueue g rid q) = isActive g := rfl

@[simp] theorem available_setQueue (g : ResourceGraph) (rid : ℤ) (q : List ℤ) :
    (setQueue g rid q).available = g.available := rfl

theorem setQueue_self (g : ResourceGraph) (rid : ℤ) : setQueue g rid (g.waitPid rid) = g := by
  simp [setQueue]

theorem getD_middle (done rest : List ℤ) (w : ℤ) : (done ++ w :: rest).getD done.length (-1) = w := by
  simp

theorem set_middle (done rest : List ℤ) (w v : ℤ) :
    (done ++ w :: rest).set done.length v = done ++ v :: rest := by
  simp

/-- Waiters that are not served : the inactive ones make room. -/
theorem scan_idle (rid : ℤ) (g : ResourceGraph) (rest : List ℤ) (s : σ) : ∀ (ws done : List ℤ),
    (∀ w ∈ ws, isActive g w = true → g.available rid ≤ 0) →
    (List.range' done.length ws.length).foldl (scanEntry victimCb rid tick)
        (setQueue g rid (done ++ ws ++ rest), s) =
      (setQueue g rid (done ++ ws.map (hole g) ++ rest), s)
  | [], done, _ => rfl
  | w :: ws, done, h => by
    have hentry : scanEntry victimCb rid tick (setQueue g rid (done ++ (w :: ws) ++ rest), s)
        done.length = (setQueue g rid ((done ++ [hole g w]) ++ ws ++ rest), s) := by
      have hlist (v : ℤ) : done ++ v :: (ws ++ rest) = (done ++ [v]) ++ ws ++ rest := by simp
      rw [List.append_assoc, List.cons_append, ← hlist (hole g w), scanEntry, hole]
      dsimp only
      rw [setQueue_waitPid, getD_middle, set_middle, setQueue_setQueue]
      by_cases hneg : w < 0
      · rw [if_pos hneg, if_pos (Or.inl hneg)]
      · rw [if_neg hneg]
        by_cases hact : isActive g w = true
        · have hav : ¬0 < (setQueue g rid (done ++ w :: (ws ++ rest))).available rid :=
            not_lt.mpr (h w List.mem_cons_self hact)
          have hact' : (!isActive (setQueue g rid (done ++ w :: (ws ++ rest))) w) ≠ true := by
            simp [hact]
          rw [if_neg hact', if_neg hav, if_pos (Or.inr hact)]
        · have hact' : (!isActive (setQueue g rid (done ++ w :: (ws ++ rest))) w) = true := by
            simp [hact]
          rw [if_pos hact', if_neg (not_or.mpr ⟨hneg, hact⟩)]
    have hrest := scan_idle rid g rest s ws (done ++ [hole g w]) fun v hv => h v (List.mem_cons_of_mem w hv)
    rw [List.length_append, List.length_singleton] at hrest
    rw [List.length_cons, List.range'_succ, List.foldl_cons, hentry, hrest]
    simp

/-- The first active waiter is served, and the callback is called. -/
theorem scan_serve (hr : validRid rid) (hav : 0 < g.available rid) {w : ℤ}
    (hact : isActive g w = true) (done rest : List ℤ) (s : σ) :
    scanEntry victimCb rid tick (setQueue g rid (done ++ w :: rest), s) done.length =
      (setQueue (g.granted w rid) rid (done ++ -1 :: rest),
        victimCb (setQueue (g.granted w rid) rid (done ++ -1 :: rest)) w tick s) := by
  have hw := validPid_of_isActive hact
  have halloc : (deadlockAlloc (setQueue g rid (done ++ w :: rest)) w rid).1 =
      setQueue (g.granted w rid) rid (done ++ w :: rest) := by
    rw [deadlockAlloc, if_neg (not_not.mpr hw), if_neg (not_not.mpr hr), available_setQueue,
      if_neg (not_le.mpr hav)]
    rfl
  have hact' : (!isActive (setQueue g rid (done ++ w :: rest)) w) ≠ true := by
    simp [hact]
  have hav' : 0 < (setQueue g rid (done ++ w :: rest)).available rid := hav
  rw [scanEntry]
  dsimp only
  rw [setQueue_waitPid, getD_middle, if_neg (not_lt.mpr hw.1), if_neg hact', if_pos hav', halloc,
    setQueue_waitPid, set_middle, setQueue_setQueue]

/-! ## The hand-over -/

theorem inPlace_of_scan (hr : validRid rid) {g' : ResourceGraph} {q : List ℤ} {s s' : σ}
    (h : (List.range (g.waitPid rid).length).foldl (scanEntry victimCb rid tick) (g, s) =
      (setQueue g' rid q, s')) :
    deadlockWakeInPlace victimCb rid tick g s = (setQueue g' rid (q.filter fun p => 0 ≤ p), s') := by
  rw [deadlockWakeInPlace, if_neg (not_not.mpr hr)]
  dsimp only
  rw [h, setQueue_waitPid, Compaction.take_compact, setQueue_setQueue]

/-- Nobody is served : the inactive waiters leave the queue. -/
theorem inPlace_idle (hr : validRid rid)
    (h : ∀ w ∈ g.waitPid rid, isActive g w = true → g.available rid ≤ 0) (s : σ) :
    deadlockWakeInPlace victimCb rid tick g s = (dropped g rid, s) := by
  have hscan := scan_idle victimCb tick rid g [] s (g.waitPid rid) [] h
  rw [List.nil_append, List.nil_append, List.append_nil, List.append_nil, setQueue_self,
    List.length_nil, ← List.range_eq_range'] at hscan
  rw [inPlace_of_scan victimCb tick hr hscan, filter_hole]
  rfl

/-- The first active waiter is served : the callback is called with the unit allocated. -/
theorem inPlace_serve (hr : validRid rid) (hav : g.available rid = 1) {w : ℤ} {rest : List ℤ}
    (hfirst : activeWaiters g rid = w :: rest) (s : σ) :
    ∃ q, deadlockWakeInPlace victimCb rid tick g s = (handedOver g rid w rest,
      victimCb (setQueue (g.granted w rid) rid q) w tick s) := by
  obtain ⟨before, after, hq, hbefore, hact, hafter⟩ := List.filter_eq_cons_iff.mp hfirst
  have htaken : (g.granted w rid).available rid ≤ 0 := by
    dsimp only [granted]
    rw [Function.update_self]
    omega
  have hholes : after.map (hole (g.granted w rid)) = after.map (hole g) :=
    List.map_congr_left fun v _ => by rw [hole, hole, isActive_granted g rid hact]
  set front := before.map (hole g) with hfront
  have hlen : front.length = before.length := List.length_map _
  -- the waiters before `w`, then `w`, then those after it, for whom nothing is left
  have hidle₁ := scan_idle victimCb tick rid g (w :: after) s before []
    fun v hv ha => absurd ha (hbefore v hv)
  have hserve := scan_serve victimCb tick hr (by omega) hact front after s
  set s' := victimCb (setQueue (g.granted w rid) rid (front ++ -1 :: after)) w tick s
  have hidle₂ := scan_idle victimCb tick rid (g.granted w rid) [] s' after (front ++ [-1])
    fun _ _ _ => htaken
  have hrange : List.range (g.waitPid rid).length =
      List.range' 0 before.length ++ before.length :: List.range' (before.length + 1) after.length := by
    rw [hq, List.length_append, List.length_cons, List.range_eq_range', ← List.range'_append_1,
      Nat.zero_add, List.range'_succ]
  have hscan : (List.range (g.waitPid rid).length).foldl (scanEntry victimCb rid tick) (g, s) =
      (setQueue (g.granted w rid) rid (front ++ -1 :: after.map (hole g)), s') := by
    rw [List.nil_append, List.nil_append, ← hfront, List.length_nil, ← hq, setQueue_self] at hidle₁
    rw [List.append_nil, List.append_nil, List.append_assoc, List.singleton_append,
      List.append_assoc, List.singleton_append, List.length_append, List.length_singleton, hlen,
      hholes] at hidle₂
    rw [hrange, List.foldl_append, hidle₁, List.foldl_cons, ← hlen, hserve, hlen, hidle₂]
  refine ⟨front ++ -1 :: after, ?_⟩
  rw [inPlace_of_scan victimCb tick hr hscan]
  have hnone : before.filter (isActive g) = [] := List.filter_eq_nil_iff.mpr hbefore
  rw [List.filter_append, hfront, filter_hole, hnone, List.nil_append,
    List.filter_cons_of_neg (by decide), filter_hole, hafter]
  rfl

/-- The graph is that of the pass over the list of the waiters. -/
theorem deadlockWakeWaiters_eq_inPlace (hr : validRid rid)
    (h : g.available rid = 0 ∨ g.available rid = 1) (s : σ) :
    (deadlockWakeWaiters g rid).1 = (deadlockWakeInPlace victimCb rid tick g s).1 := by
  have h0 : 0 ≤ g.available rid := by omega
  have h1 : g.available rid ≤ 1 := by omega
  rcases deadlockWakeWaiters_cases hr h0 h1 with
    ⟨hnone, he⟩ | ⟨w, rest, hav, hfirst, he⟩
  · rw [he, inPlace_idle victimCb tick hr (fun w hw ha => ?_) s]
    rcases hnone with hav | hempty
    · exact hav.le
    · exact absurd ha (List.filter_eq_nil_iff.mp hempty w hw)
  · obtain ⟨q, hr⟩ := inPlace_serve victimCb tick hr hav hfirst s
    rw [he, hr]

end scan

/-- One pass over a queue gives a free unit to the first active waiter and calls back once, when
it has the unit. The inactive waiters are dropped and the others stay in their order, so that a
resource is free afterwards only if nobody waits for it. -/
theorem wakeWaiters_hands_over {σ : Type*} (victimCb : ResourceGraph → ℤ → ℤ → σ → σ) {rid : ℤ}
    (tick : ℤ) {g : ResourceGraph} (hr : validRid rid)
    (h : g.available rid = 0 ∨ g.available rid = 1) (s : σ) :
    let r := deadlockWakeInPlace victimCb rid tick g s
    let active := (g.waitPid rid).filter (isActive g)
    (g.available rid = 0 ∨ active = [] → r = (setQueue g rid active, s)) ∧
    (∀ w rest, g.available rid = 1 → active = w :: rest →
      r.1 = setQueue (g.granted w rid) rid rest ∧
      ∃ q, r.2 = victimCb (setQueue (g.granted w rid) rid q) w tick s) ∧
    (0 < r.1.available rid → (r.1.waitPid rid).filter (isActive r.1) = []) := by
  intro r active
  have hidle (hno : g.available rid = 0 ∨ active = []) : r = (setQueue g rid active, s) := by
    refine inPlace_idle victimCb tick hr (fun w hw ha => ?_) s
    rcases hno with hav | hnone
    · exact hav.le
    · exact absurd ha (List.filter_eq_nil_iff.mp hnone w hw)
  have hserve (w : ℤ) (rest : List ℤ) (hav : g.available rid = 1) (hfirst : active = w :: rest) :
      r.1 = setQueue (g.granted w rid) rid rest ∧
        ∃ q, r.2 = victimCb (setQueue (g.granted w rid) rid q) w tick s := by
    obtain ⟨q, he⟩ := inPlace_serve victimCb tick hr hav hfirst s
    exact ⟨congrArg Prod.fst he, q, congrArg Prod.snd he⟩
  refine ⟨hidle, hserve, fun hfree => ?_⟩
  rcases h with hav | hav
  · rw [hidle (Or.inl hav), available_setQueue, hav] at hfree
    exact absurd hfree (lt_irrefl 0)
  · cases hactive : active with
    | nil =>
      rw [hidle (Or.inr hactive), setQueue_waitPid, isActive_setQueue, hactive]
      rfl
    | cons w rest =>
      rw [(hserve w rest hav hactive).1, available_setQueue] at hfree
      dsimp only [granted] at hfree
      rw [Function.update_self, hav] at hfree
      exact absurd hfree (by decide)

/-- Process `1` is queued twice, behind a process that is not active any more. -/
theorem wakeWaiters_hands_over_queued_twice :
    let g : ResourceGraph :=
      { deadlockInit .zero with active := fun p => p = 1 ∨ p = 2, waitPid := fun _ => [5, 1, 2, 1] }
    let note : ResourceGraph → ℤ → ℤ → List (ℤ × ℤ) → List (ℤ × ℤ) := fun g pid _ notes =>
      (pid, g.allocation pid resourceLandingPad) :: notes
    let r := deadlockWakeInPlace note resourceLandingPad 7 g []
    r.1.waitPid resourceLandingPad = [2, 1] ∧ r.2 = [(1, 1)] := by
  intro g note r
  have hserved := (wakeWaiters_hands_over note 7 (by decide) (Or.inr (by decide)) []).2.1 1 [2, 1]
    (show g.available resourceLandingPad = 1 by decide) (by decide)
  obtain ⟨hgraph, q, hnotes⟩ := hserved
  constructor
  · rw [hgraph, setQueue_waitPid]
  · rw [hnotes]
    rfl

end FleetOS
