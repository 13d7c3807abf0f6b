import FleetOS.GraphRows

/-!
# What the search for a deadlock finds

Process `p` waits on process `q` if it asks for a resource that `q` holds (`WaitsOn`). Over
graphs whose rows are sound these are the edges that `dfs_cycle` follows (`edge_iff`).

The candidates for the victim are the processes that lead to a cycle, those on a cycle and
those that wait for them, and the victim is the candidate that outranks the others
(`best_deadlockDetect`). Hence a deadlock is reported exactly when there is a cycle
(`deadlockDetect_iff_cycle`), and the victim is on one exactly when no process that merely
leads to a cycle outranks all that are on one (`deadlockDetect_victim_iff`).
-/

namespace FleetOS

open CycleSearch Relation

variable {g : ResourceGraph}

/-- Both are active, and `p` asks for a resource that `q` holds. -/
def WaitsOn (g : ResourceGraph) (p q : ℤ) : Prop :=
  g.active p = true ∧ g.active q = true ∧ ∃ r, 0 < g.request p r ∧ 0 < g.allocation q r

/-- On a cycle of the wait-for relation. -/
def Deadlocked (g : ResourceGraph) (p : ℤ) : Prop := TransGen (WaitsOn g) p p

/-- Leads to a cycle of the wait-for relation. -/
def Stuck (g : ResourceGraph) (p : ℤ) : Prop := ∃ c, Deadlocked g c ∧ ReflTransGen (WaitsOn g) p c

/-! ## The edges -/

theorem WaitsOn.ne (h : g.Rows) {p q : ℤ} (hw : WaitsOn g p q) : q ≠ p := by
  rintro rfl
  obtain ⟨-, -, r, hr, ha⟩ := hw
  have := h.exclusive q r (by omega)
  omega

theorem edge_iff (h : g.Rows) {p q : ℤ} (hp : g.active p = true) :
    Edge (waitsFor g) p q ↔ WaitsOn g p q := by
  simp only [Edge, waitsFor, List.mem_flatMap, mem_resourceIndices]
  constructor
  · rintro ⟨r, -, hq⟩
    split_ifs at hq with hr
    · exact absurd hq List.not_mem_nil
    · simp only [List.mem_filter, decide_eq_true_eq] at hq
      obtain ⟨-, hact, -, ha⟩ := hq
      exact ⟨hp, (isActive_iff h).mp hact, r, not_le.mp hr, ha⟩
  · intro hw
    have hne := hw.ne h
    obtain ⟨-, hq, r, hr, ha⟩ := hw
    refine ⟨r, (h.request_active p r (by omega)).1, ?_⟩
    rw [if_neg (not_le.mpr hr)]
    simp only [List.mem_filter, mem_pidIndices, decide_eq_true_eq]
    exact ⟨h.active_valid q hq, (isActive_iff h).mpr hq, hne, ha⟩

theorem edge_active (h : g.Rows) {p q : ℤ} (he : Edge (waitsFor g) p q) : g.active p = true := by
  simp only [Edge, waitsFor, List.mem_flatMap] at he
  obtain ⟨r, -, hq⟩ := he
  split_ifs at hq with hr
  · exact absurd hq List.not_mem_nil
  · exact (h.request_active p r (by omega)).2

theorem edge_eq (h : g.Rows) : Edge (waitsFor g) = WaitsOn g := by
  funext p q
  exact propext ⟨fun he => (edge_iff h (edge_active h he)).mp he, fun hw => (edge_iff h hw.1).mpr hw⟩

theorem onCycle_iff (h : g.Rows) {p : ℤ} : OnCycle (waitsFor g) p ↔ Deadlocked g p := by
  unfold OnCycle Deadlocked
  rw [edge_eq h]

theorem trapped_iff (h : g.Rows) {p : ℤ} : Trapped (waitsFor g) p ↔ Stuck g p := by
  unfold Trapped Stuck
  simp only [onCycle_iff h, edge_eq h]

/-- A stuck process waits on a stuck one. -/
theorem Stuck.exists_waitsOn {p : ℤ} (hp : Stuck g p) : ∃ q, WaitsOn g p q := by
  obtain ⟨c, hc, hpc⟩ := hp
  rcases ReflTransGen.cases_head hpc with rfl | ⟨q, hw, -⟩
  · obtain ⟨q, hw, -⟩ := TransGen.head'_iff.mp hc
    exact ⟨q, hw⟩
  · exact ⟨q, hw⟩

/-! ## The choice of the victim -/

/-- `i` comes before `j` as a victim. -/
def Outranks (g : ResourceGraph) (i j : ℤ) : Prop :=
  (g.priority j).toNat < (g.priority i).toNat ∨
    ((g.priority i).toNat = (g.priority j).toNat ∧ j < i)

theorem Outranks.trans {i j k : ℤ} (h : Outranks g i j) (h' : Outranks g j k) : Outranks g i k := by
  unfold Outranks at *
  omega

theorem not_outranks_self (i : ℤ) : ¬Outranks g i i := by
  unfold Outranks
  omega

/-- `out` is the highest ranking member of `s`, or negative if `s` has none. -/
def Best (g : ResourceGraph) (s : Set ℤ) (out : ℤ) : Prop :=
  (s = ∅ ∧ out < 0) ∨ (out ∈ s ∧ 0 ≤ out ∧ ∀ i ∈ s, ¬Outranks g i out)

theorem Best.pick {s : Set ℤ} {out i : ℤ} (h : Best g s out) (hi : 0 ≤ i) :
    Best g (insert i s) (pickVictim g out i) := by
  unfold pickVictim
  right
  rcases h with ⟨rfl, hneg⟩ | ⟨hmem, hpos, hbest⟩
  · rw [if_pos (Or.inl hneg)]
    refine ⟨Set.mem_insert i _, hi, fun j hj => ?_⟩
    rcases hj with rfl | hj
    · exact not_outranks_self j
    · exact absurd hj (Set.notMem_empty j)
  · split_ifs with hpick
    · have hrank : Outranks g i out := hpick.resolve_left (by omega)
      refine ⟨Set.mem_insert i _, hi, fun j hj => ?_⟩
      rcases hj with rfl | hj
      · exact not_outranks_self j
      · exact fun hji => hbest j hj (hji.trans hrank)
    · refine ⟨Set.mem_insert_of_mem i hmem, hpos, fun j hj => ?_⟩
      rcases hj with rfl | hj
      · exact fun hr => hpick (Or.inr hr)
      · exact hbest j hj

theorem Best.foldl_pick {l : List ℤ} (hl : ∀ i ∈ l, 0 ≤ i) {s : Set ℤ} {out : ℤ}
    (h : Best g s out) : Best g (s ∪ {i | i ∈ l}) (l.foldl (pickVictim g) out) := by
  induction l generalizing s out with
  | nil => simpa using h
  | cons i l ih =>
    have hs : s ∪ {j | j ∈ i :: l} = insert i s ∪ {j | j ∈ l} := by
      ext j
      simp only [Set.mem_union, Set.mem_ofPred_eq, List.mem_cons, Set.mem_insert_iff]
      tauto
    rw [hs]
    exact ih (fun j hj => hl j (List.mem_cons_of_mem i hj))
      (h.pick (hl i List.mem_cons_self))

/-- The processes the search from `pid` adds to the candidates. -/
def stackFrom (g : ResourceGraph) (pid : ℤ) : Set ℤ :=
  {i | g.active pid = true ∧ hasOutgoingRequest g pid = true ∧ (dfsCycle g pid .empty).1 = true ∧
    i ∈ (dfsCycle g pid .empty).2.inStack ∧ g.active i = true}

theorem Best.detectFrom (h : g.Rows) {s : Set ℤ} {out : ℤ} (hb : Best g s out) (pid : ℤ) :
    Best g (s ∪ stackFrom g pid) (detectFrom g out pid) := by
  have hnone : (∀ i, i ∉ stackFrom g pid) → Best g (s ∪ stackFrom g pid) out := by
    intro hno
    rw [Set.eq_empty_of_forall_notMem hno, Set.union_empty]
    exact hb
  unfold FleetOS.detectFrom
  split_ifs with hact hreq
  · refine hnone fun i hi => ?_
    have := (isActive_iff h).mpr hi.1
    simp [this] at hact
  · refine hnone fun i hi => ?_
    simp [hi.2.1] at hreq
  · dsimp only
    split_ifs with hfound
    · have hset : stackFrom g pid =
          {i | i ∈ pidIndices.filter fun i => i ∈ (dfsCycle g pid .empty).2.inStack ∧ isActive g i} := by
        ext i
        simp only [stackFrom, Set.mem_ofPred_eq, List.mem_filter, decide_eq_true_eq,
          isActive_iff h, mem_pidIndices]
        simp only [Bool.not_eq_true', Bool.not_eq_false, isActive_iff h] at hact hreq
        constructor
        · rintro ⟨-, -, -, hi, hai⟩
          exact ⟨h.active_valid i hai, hi, hai⟩
        · rintro ⟨-, hi, hai⟩
          exact ⟨hact, hreq, hfound, hi, hai⟩
      rw [hset]
      refine hb.foldl_pick fun i hi => ?_
      exact (mem_pidIndices.mp (List.mem_filter.mp hi).1).1
    · exact hnone fun i hi => hfound hi.2.2.1

theorem best_foldl (h : g.Rows) (pids : List ℤ) {s : Set ℤ} {out : ℤ} (hb : Best g s out) :
    Best g (s ∪ {i | ∃ pid ∈ pids, i ∈ stackFrom g pid}) (pids.foldl (detectFrom g) out) := by
  induction pids generalizing s out with
  | nil => simpa using hb
  | cons pid pids ih =>
    have hs : s ∪ {i | ∃ p ∈ pid :: pids, i ∈ stackFrom g p} =
        s ∪ stackFrom g pid ∪ {i | ∃ p ∈ pids, i ∈ stackFrom g p} := by
      ext i
      simp only [Set.mem_union, Set.mem_ofPred_eq, List.mem_cons, exists_eq_or_imp, or_assoc]
    rw [hs]
    exact ih (hb.detectFrom h pid)

/-! ## The candidates -/

/-- The pids the code goes through, as a finite set of graph nodes. -/
theorem waitsFor_sub {p q : ℤ} (hq : q ∈ waitsFor g p) : q ∈ pidIndices.toFinset := by
  simp only [waitsFor, List.mem_flatMap] at hq
  obtain ⟨r, -, hq⟩ := hq
  split_ifs at hq
  · exact absurd hq List.not_mem_nil
  · exact List.mem_toFinset.mpr (List.mem_filter.mp hq).1

theorem card_pidIndices : pidIndices.toFinset.card ≤ maxProcs := by
  have := pidIndices.toFinset_card_le
  simpa [pidIndices] using this

theorem mem_nodes (h : g.Rows) {p : ℤ} (hp : g.active p = true) : p ∈ pidIndices.toFinset :=
  List.mem_toFinset.mpr (mem_pidIndices.mpr (h.active_valid p hp))

theorem dfsCycle_eq_true_iff (h : g.Rows) {p : ℤ} (hp : g.active p = true) :
    (dfsCycle g p .empty).1 = true ↔ Stuck g p := by
  rw [← trapped_iff h]
  exact search_eq_true_iff (fun _ _ _ => waitsFor_sub) (mem_nodes h hp) card_pidIndices

theorem candidates (h : g.Rows) :
    {i | ∃ pid ∈ pidIndices, i ∈ stackFrom g pid} = {i | Stuck g i} := by
  ext i
  constructor
  · rintro ⟨pid, -, hact, -, hfound, hi, -⟩
    exact (trapped_iff h).mp
      ((search_found (fun _ _ _ => waitsFor_sub) (mem_nodes h hact) card_pidIndices hfound).2 i hi)
  · intro hi
    obtain ⟨q, hw⟩ := hi.exists_waitsOn
    obtain ⟨r, hr, -⟩ := hw.2.2
    have hact := hw.1
    have hfound := (dfsCycle_eq_true_iff h hact).mpr hi
    refine ⟨i, mem_pidIndices.mpr (h.active_valid i hact), hact, ?_, hfound, ?_, hact⟩
    · have hrid := (h.request_active i r (by omega)).1
      simp only [hasOutgoingRequest, (isActive_iff h).mpr hact, Bool.true_and, List.any_eq_true,
        decide_eq_true_eq]
      exact ⟨r, mem_resourceIndices.mpr hrid, hr⟩
    · exact (search_found (fun _ _ _ => waitsFor_sub) (mem_nodes h hact) card_pidIndices hfound).1

/-- The victim outranks all processes that lead to a cycle, and is one of them. -/
theorem best_deadlockDetect (h : g.Rows) :
    Best g {i | Stuck g i} (pidIndices.foldl (detectFrom g) (-1)) := by
  have hb : Best g ∅ (-1) := Or.inl ⟨rfl, by decide⟩
  have := best_foldl h pidIndices hb
  rwa [Set.empty_union, candidates h] at this

theorem deadlockDetect_eq_some (h : g.Rows) {v : ℤ} (hv : deadlockDetect g = some v) :
    Stuck g v ∧ ∀ i, Stuck g i → ¬Outranks g i v := by
  unfold deadlockDetect at hv
  dsimp only at hv
  split_ifs at hv with h0
  obtain rfl := Option.some.inj hv
  rcases best_deadlockDetect h with ⟨-, hneg⟩ | ⟨hmem, -, hbest⟩
  · omega
  · exact ⟨hmem, hbest⟩

theorem deadlockDetect_isSome (h : g.Rows) :
    (deadlockDetect g).isSome = true ↔ ∃ p, Deadlocked g p := by
  unfold deadlockDetect
  dsimp only
  rcases best_deadlockDetect h with ⟨hempty, hneg⟩ | ⟨hmem, hpos, -⟩
  · rw [if_neg (not_le.mpr hneg)]
    refine iff_of_false (by simp) ?_
    rintro ⟨p, hp⟩
    have : p ∈ {i | Stuck g i} := ⟨p, hp, .refl⟩
    rw [hempty] at this
    exact this
  · rw [if_pos hpos]
    obtain ⟨c, hc, -⟩ := hmem
    exact iff_of_true rfl ⟨c, hc⟩

/-! ## Detection -/

/-- After any calls, a deadlock is reported exactly when the wait-for graph has a cycle, and
exactly when some processes each ask for a resource that another one of them holds. -/
theorem deadlockDetect_iff_cycle (g₀ : ResourceGraph) (calls : List GraphCall) :
    ((deadlockDetect (graphRun g₀ calls)).isSome = true ↔
      ∃ p, TransGen (fun p q => q ≠ p ∧ WaitsOn (graphRun g₀ calls) p q) p p) ∧
    ((deadlockDetect (graphRun g₀ calls)).isSome = true ↔
      ∃ s : Set ℤ, s.Nonempty ∧ ∀ p ∈ s, ∃ q ∈ s, q ≠ p ∧
        ∃ r, 0 < (graphRun g₀ calls).request p r ∧ 0 < (graphRun g₀ calls).allocation q r) := by
  have h := rows_graphRun g₀ calls
  set g := graphRun g₀ calls
  rw [deadlockDetect_isSome h]
  have hrel : (fun p q => q ≠ p ∧ WaitsOn g p q) = WaitsOn g := by
    funext p q
    exact propext (and_iff_right_of_imp fun hw => hw.ne h)
  rw [hrel]
  refine ⟨Iff.rfl, ?_, ?_⟩
  · rintro ⟨p, hp⟩
    refine ⟨{q | Deadlocked g q}, ⟨p, hp⟩, fun q hq => ?_⟩
    obtain ⟨q', hw, hback⟩ := TransGen.head'_iff.mp hq
    exact ⟨q', TransGen.tail' hback hw, hw.ne h, hw.2.2⟩
  · rintro ⟨s, ⟨p, hp⟩, hknot⟩
    have hact : ∀ q ∈ s, g.active q = true := by
      intro q hq
      obtain ⟨-, -, -, r, hr, -⟩ := hknot q hq
      exact (h.request_active q r (by omega)).2
    classical
    -- the processes of `s` are active, so there are finitely many
    let t : Finset ℤ := pidIndices.toFinset.filter fun q => q ∈ s
    have hmem : ∀ q ∈ s, q ∈ t := fun q hq => Finset.mem_filter.mpr ⟨mem_nodes h (hact q hq), hq⟩
    have hknot' : ∀ q ∈ t, ∃ q' ∈ t, Edge (waitsFor g) q q' := by
      intro q hq
      have hqs := (Finset.mem_filter.mp hq).2
      obtain ⟨q', hq', -, hr⟩ := hknot q hqs
      refine ⟨q', hmem q' hq', ?_⟩
      rw [edge_eq h]
      exact ⟨hact q hqs, hact q' hq', hr⟩
    obtain ⟨c, -, hc⟩ := exists_onCycle_of_knot ⟨p, hmem p hp⟩ hknot'
    exact ⟨c, (onCycle_iff h).mp hc⟩

/-- After any calls, the reported victim is on a cycle and outranked by no process on one,
exactly when every process that only leads to a cycle is outranked by one that is on a
cycle. -/
theorem deadlockDetect_victim_iff (g₀ : ResourceGraph) (calls : List GraphCall) :
    (∀ v, deadlockDetect (graphRun g₀ calls) = some v →
      Deadlocked (graphRun g₀ calls) v ∧
        ∀ p, Deadlocked (graphRun g₀ calls) p → ¬Outranks (graphRun g₀ calls) p v) ↔
    ∀ p, Stuck (graphRun g₀ calls) p → ¬Deadlocked (graphRun g₀ calls) p →
      ∃ c, Deadlocked (graphRun g₀ calls) c ∧ Outranks (graphRun g₀ calls) c p := by
  have h := rows_graphRun g₀ calls
  set g := graphRun g₀ calls
  constructor
  · intro hgood p hp hnot
    obtain ⟨c, hc, -⟩ := id hp
    obtain ⟨v, hv⟩ := Option.isSome_iff_exists.mp ((deadlockDetect_isSome h).mpr ⟨c, hc⟩)
    obtain ⟨hvc, -⟩ := hgood v hv
    refine ⟨v, hvc, ?_⟩
    -- `p` does not outrank the victim, and is not the victim
    have hle := (deadlockDetect_eq_some h hv).2 p hp
    have hne : p ≠ v := fun he => hnot (he ▸ hvc)
    unfold Outranks at hle ⊢
    omega
  · intro hcond v hv
    obtain ⟨hstuck, hbest⟩ := deadlockDetect_eq_some h hv
    refine ⟨?_, fun p hp => hbest p ⟨p, hp, .refl⟩⟩
    by_contra hnot
    obtain ⟨c, hc, hrank⟩ := hcond v hstuck hnot
    exact hbest c ⟨c, hc, .refl⟩ hrank

/-- Processes 0 and 1 block each other, the less important process 2 waits for process 0, and
process 2 is the victim although it holds nothing. -/
def waiterCalls : List GraphCall :=
  [.setPriority 2 .low, .request 0 resourceLandingPad, .request 1 resourceChargeStation,
    .request 0 resourceChargeStation, .request 1 resourceLandingPad,
    .request 2 resourceLandingPad]

theorem deadlockDetect_victim_waiter :
    deadlockDetect (graphRun .zero waiterCalls) = some 2 ∧
      ¬Deadlocked (graphRun .zero waiterCalls) 2 := by
  refine ⟨by decide +kernel, fun hcycle => ?_⟩
  obtain ⟨q, -, -, -, r, -, ha⟩ := TransGen.tail'_iff.mp hcycle
  obtain ⟨hr, -⟩ := (rows_graphRun .zero waiterCalls).allocation_active 2 r (by omega)
  have hall : ∀ r ∈ resourceIndices, (graphRun .zero waiterCalls).allocation 2 r = 0 := by
    decide +kernel
  have := hall r (mem_resourceIndices.mpr hr)
  omega

end FleetOS
