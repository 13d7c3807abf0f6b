import FleetOS.DistinctQueue
import FleetOS.SchedulerRuns

/-!
# The ready queues as lists

The queue functions follow a list without duplicates of at most `maxReadyQueue` threads
(`queueRefines`) : `queue_push` appends a thread that is not there if there is room, `queue_pop`
takes the first one, and removing at the index that `find_in_queue` returns erases the thread.

In the round robin copy the search, the removal and `scheduler_add` do the same. The push in
`scheduler_next` has neither of the two tests : it follows the list exactly when the list accepts
the thread that yields (`Scheduler.rrRefines_iff`). Otherwise that thread is in the queue twice,
or it overwrites the first one and runs in its place (`schedulerNext_overwrites`). A scheduler
that keeps the discipline of `ReadyQueues`, as the kernel's does, always accepts it
(`Scheduler.Disciplined.yieldAccepted`).
-/

namespace FleetOS

/-- A list of threads without duplicates, at most `maxReadyQueue` of them. -/
abbrev ReadyList := DistinctQueue ℕ maxReadyQueue

/-! ## The functions of a queue -/

/-- What the queue functions do to a queue that holds `l`. -/
structure QueueRefines (q : ReadyQueue) (l : ReadyList) (t : ℕ) : Prop where
  push : (queuePush q t).Holds (l.push t)
  pop_none : queuePop q = none ↔ l.elems = []
  pop_some : ∀ u q', queuePop q = some (u, q') → l.front = some u ∧ q'.Holds l.pop
  find : findInQueue q t = none ↔ t ∉ l.elems
  remove : ∀ idx, findInQueue q t = some idx →
    q.RemovalEnds idx ∧ (queueRemoveAt q idx).Holds (l.erase t)

theorem queuePush_holds {q : ReadyQueue} {l : ReadyList} (h : q.Holds l) (t : ℕ) :
    (queuePush q t).Holds (l.push t) := by
  by_cases ha : l.Accepts t
  · have hroom : q.count < maxReadyQueue := by
      rw [h.count_eq]
      exact ha.2
    have ht : t ∉ q.toList := h.toList ▸ ha.1
    rw [Scheduler.queuePush_eq hroom ht]
    exact h.push ha
  · have hsame : queuePush q t = q := by
      unfold queuePush
      split_ifs with hfull hfound
      · rfl
      · rfl
      · refine absurd ⟨?_, ?_⟩ ha
        · rw [← h.index_eq_none_iff, ← Option.not_isSome_iff_eq_none]
          exact hfound
        · rw [← h.count_eq]
          exact not_le.mp hfull
    rw [hsame, DistinctQueue.push_of_not ha]
    exact h

theorem queueRefines {q : ReadyQueue} {l : ReadyList} (h : q.Holds l) (t : ℕ) :
    QueueRefines q l t where
  push := queuePush_holds h t
  pop_none := by
    rw [h.elems_eq_nil]
    unfold queuePop
    split_ifs with hc <;> simp [hc]
  pop_some u q' hpop := by
    unfold queuePop at hpop
    split_ifs at hpop with hc
    cases hpop
    exact ⟨h.front_eq hc, h.pop⟩
  find := h.index_eq_none_iff
  remove idx hidx := ⟨RingBuffer.removalEnds_index h.toWF hidx, h.removeAt_index hidx⟩

/-! ## The round robin copy -/

namespace Scheduler

variable {s : Scheduler} {l : ReadyList}

/-- The list after the first half of `scheduler_next`. -/
def afterYield (s : Scheduler) (l : ReadyList) : ReadyList :=
  match s.currentThread with
  | none => l
  | some c => if (s.tcb c).state = .running then l.push c else l

/-- The list accepts the thread that yields the processor, if there is one. -/
def YieldAccepted (s : Scheduler) (l : ReadyList) : Prop := ∀ c, s.Yields c → l.Accepts c

/-- What the same functions do to the round robin queue, if it holds `l`. An empty queue is left
as it is by `scheduler_next`. -/
structure RrRefines (s : Scheduler) (l : ReadyList) (t : ℕ) : Prop where
  find : findInRr s t = none ↔ t ∉ l.elems
  remove : ∀ idx, findInRr s t = some idx →
    s.rr.RemovalEnds idx ∧ (rrRemoveAt s idx).rr.Holds (l.erase t)
  add : (schedulerAdd s t).rr.Holds (l.push t)
  next_nil : l.elems = [] → schedulerNext s = s
  next : l.elems ≠ [] → (schedulerNext s).rr.Holds (s.afterYield l).pop ∧
    (schedulerNext s).currentThread = (s.afterYield l).front

theorem register_rr (s : Scheduler) (t : ℕ) : (s.register t).rr = s.rr := by
  unfold register
  split_ifs <;> rfl

/-- `scheduler_add` makes the tests of `queue_push` in the other order. -/
theorem schedulerAdd_rr (hm : s.schedMode = .rr) (t : ℕ) :
    (schedulerAdd s t).rr = queuePush s.rr t := by
  unfold schedulerAdd queuePush
  rw [hm]
  dsimp only
  by_cases hfound : (findInRr s t).isSome = true
  · have hfound' : (findInQueue s.rr t).isSome = true := hfound
    rw [if_pos hfound, if_pos hfound', ite_self]
  have hfound' : ¬(findInQueue s.rr t).isSome = true := hfound
  rw [if_neg hfound, if_neg hfound']
  split_ifs
  · rfl
  · exact register_rr _ _

theorem yieldCurrent_rr (hm : s.schedMode = .rr) {c : ℕ} (hy : s.Yields c) :
    (yieldCurrent s).rr = s.rr.push c := by
  unfold yieldCurrent
  rw [hy.1]
  dsimp only
  rw [if_pos hy.2, hm]
  rfl

theorem afterYield_of_yields {c : ℕ} (hy : s.Yields c) : s.afterYield l = l.push c := by
  unfold afterYield
  rw [hy.1]
  exact if_pos hy.2

theorem afterYield_of_not (hy : ∀ c, ¬s.Yields c) : s.afterYield l = l := by
  unfold afterYield
  cases hc : s.currentThread with
  | none => rfl
  | some c => exact if_neg fun hrun => hy c ⟨hc, hrun⟩

/-- The second half of `scheduler_next` pops what the first half left. -/
theorem schedulerNext_rr (hm : s.schedMode = .rr) (hne : s.rr.count ≠ 0) :
    (schedulerNext s).rr = (yieldCurrent s).rr.pop ∧
      (schedulerNext s).currentThread =
        some ((yieldCurrent s).rr.slots (yieldCurrent s).rr.head) := by
  unfold schedulerNext
  rw [hm]
  dsimp only
  rw [if_neg hne]
  exact ⟨rfl, rfl⟩

theorem afterYield_holds (hm : s.schedMode = .rr) (h : s.rr.Holds l) (ha : s.YieldAccepted l) :
    (yieldCurrent s).rr.Holds (s.afterYield l) ∧
      (s.rr.count ≠ 0 → (yieldCurrent s).rr.count ≠ 0) := by
  by_cases hy : ∃ c, s.Yields c
  · obtain ⟨c, hc⟩ := hy
    rw [yieldCurrent_rr hm hc, afterYield_of_yields hc]
    exact ⟨h.push (ha c hc), fun _ => Nat.succ_ne_zero _⟩
  · have hnot : ∀ c, ¬s.Yields c := fun c hc => hy ⟨c, hc⟩
    rw [yieldCurrent_of_not_yields hnot, afterYield_of_not hnot]
    exact ⟨h, id⟩

/-- A thread that the list refuses is in the queue after all, so the queue is one longer than the
list. -/
theorem not_next_of_refused (hm : s.schedMode = .rr) (h : s.rr.Holds l) {c : ℕ} (hy : s.Yields c)
    (hr : ¬l.Accepts c) :
    l.elems ≠ [] ∧ ¬(schedulerNext s).rr.Holds (s.afterYield l).pop := by
  have hne : l.elems ≠ [] := by
    intro hnil
    refine hr ⟨?_, ?_⟩
    · rw [hnil]
      exact List.not_mem_nil
    · rw [hnil]
      decide
  have hcount : s.rr.count ≠ 0 := fun he => hne (h.elems_eq_nil.mpr he)
  refine ⟨hne, fun hnext => ?_⟩
  have hlen := hnext.count_eq
  rw [(schedulerNext_rr hm hcount).1, yieldCurrent_rr hm hy, afterYield_of_yields hy,
    DistinctQueue.push_of_not hr] at hlen
  have hring : (s.rr.push c).pop.count = s.rr.count := rfl
  have hlist : l.pop.elems.length = l.elems.length - 1 := List.length_tail
  rw [hring, hlist, h.count_eq] at hlen
  have hpos := List.length_pos_iff.mpr hne
  omega

theorem rrRefines_iff (hm : s.schedMode = .rr) (h : s.rr.Holds l) (t : ℕ) :
    s.RrRefines l t ↔ s.YieldAccepted l := by
  constructor
  · intro hr c hy
    by_contra hrefused
    obtain ⟨hne, hnot⟩ := not_next_of_refused hm h hy hrefused
    exact hnot (hr.next hne).1
  · intro ha
    have hq := queueRefines h t
    refine ⟨hq.find, hq.remove, ?_, fun hnil => ?_, fun hne => ?_⟩
    · rw [schedulerAdd_rr hm]
      exact hq.push
    · unfold schedulerNext
      rw [hm]
      exact if_pos (h.elems_eq_nil.mp hnil)
    · have hcount : s.rr.count ≠ 0 := fun he => hne (h.elems_eq_nil.mpr he)
      obtain ⟨hrr, hcur⟩ := schedulerNext_rr hm hcount
      obtain ⟨hy, hypos⟩ := afterYield_holds hm h ha
      rw [hrr, hcur]
      exact ⟨hy.pop, (hy.front_eq (hypos hcount)).symm⟩

/-- The current thread is in no queue, and there is room for every thread of the table. -/
theorem Disciplined.yieldAccepted {n : ℕ} (h : s.Disciplined n) (hm : s.schedMode = .rr)
    (hl : s.rr.Holds l) : s.YieldAccepted l := by
  intro c hy
  obtain ⟨hnot, -⟩ := h.current c hy.1
  obtain ⟨hroom, -⟩ := queued_rrPush h.toSound hm (h.current_lt c hy.1) hnot
  refine ⟨?_, ?_⟩
  · rw [queued_rr hm, Multiset.mem_coe, hl.toList] at hnot
    exact hnot
  · rw [← hl.count_eq]
    exact hroom

end Scheduler

/-- Over the same list the functions of a queue are those of the list, and so are those of the
round robin copy exactly when a thread that yields is accepted. -/
theorem queues_refine_iff {q : ReadyQueue} {s : Scheduler} {l : ReadyList} (hq : q.Holds l)
    (hm : s.schedMode = .rr) (hrr : s.rr.Holds l) (t : ℕ) :
    QueueRefines q l t ∧ s.RrRefines l t ↔ s.YieldAccepted l := by
  rw [Scheduler.rrRefines_iff hm hrr, and_iff_right (queueRefines hq t)]

/-- Thread `0` runs and is put behind the two queued threads. -/
theorem queues_refine_threeThreads :
    let s := schedRun freshScheduler .rr [.add 0, .next, .add 1, .add 2]
    ∃ l : ReadyList, l.elems = [1, 2] ∧ QueueRefines s.rr l 0 ∧ s.RrRefines l 0 := by
  intro s
  have hwf : s.rr.WF := ⟨by decide, by decide⟩
  have hlist : s.rr.toList = [1, 2] := by decide
  obtain ⟨l, hl⟩ := hwf.exists_holds (by rw [hlist]; decide)
  have helems : l.elems = [1, 2] := hl.toList.symm.trans hlist
  have haccepted : s.YieldAccepted l := by
    rintro c ⟨hc, -⟩
    have hzero : s.currentThread = some 0 := by decide
    cases hzero.symm.trans hc
    unfold DistinctQueue.Accepts
    rw [helems]
    decide
  exact ⟨l, helems, (queues_refine_iff hl rfl hl 0).mpr haccepted⟩

/-- Thread `0` runs and the queue is full. The switch writes `0` over the first thread and runs
`0` again : thread `1` is gone. -/
theorem schedulerNext_overwrites :
    let s := schedRun freshScheduler .rr
      ([.add 0, .next] ++ (List.range' 1 maxReadyQueue).map .add)
    ∃ l : ReadyList, l.elems = List.range' 1 maxReadyQueue ∧ s.rr.Holds l ∧ s.Yields 0 ∧
      (schedulerNext s).currentThread = some 0 ∧
      (schedulerNext s).rr.toList = List.range' 2 (maxReadyQueue - 1) ++ [0] ∧
      ¬s.RrRefines l 0 := by
  intro s
  have hstate : (s.rr.head < maxReadyQueue ∧ s.rr.count ≤ maxReadyQueue) ∧
      s.rr.toList = List.range' 1 maxReadyQueue ∧ s.schedMode = .rr ∧ s.Yields 0 := by
    decide +kernel
  obtain ⟨⟨hhead, hcount⟩, hlist, hmode, hyields⟩ := hstate
  have hafter : (schedulerNext s).currentThread = some 0 ∧
      (schedulerNext s).rr.toList = List.range' 2 (maxReadyQueue - 1) ++ [0] := by decide +kernel
  have hwf : s.rr.WF := ⟨hhead, hcount⟩
  obtain ⟨l, hl⟩ := hwf.exists_holds (by rw [hlist]; exact List.nodup_range')
  have helems : l.elems = List.range' 1 maxReadyQueue := hl.toList.symm.trans hlist
  refine ⟨l, helems, hl, hyields, hafter.1, hafter.2, fun hr => ?_⟩
  have hfull := ((Scheduler.rrRefines_iff hmode hl 0).mp hr 0 hyields).2
  rw [helems, List.length_range'] at hfull
  exact absurd hfull (lt_irrefl _)

end FleetOS
