import FleetOS.RingBuffer

/-!
# Bounded queues without duplicates

`DistinctQueue` is a list of at most `cap` elements in which none occurs twice : `push` appends
unless the element is there or the queue is full, `pop` drops the first element and `erase` a
given one.

A ring buffer within its bounds with these elements holds the queue (`RingBuffer.Holds`), and its
operations follow those of the queue : `Holds.push`, `Holds.pop` and `Holds.removeAt_index`. The
loop of a removal is also stated step by step : it stops at the index of the last element
(`removalEnds_index`).
-/

structure DistinctQueue (α : Type*) (cap : ℕ) where
  elems : List α
  nodup : elems.Nodup
  length_le : elems.length ≤ cap

namespace DistinctQueue

variable {α : Type*} {cap : ℕ}

/-- There is room for `a`, and it is not there yet. -/
def Accepts (l : DistinctQueue α cap) (a : α) : Prop :=
  a ∉ l.elems ∧ l.elems.length < cap

def front (l : DistinctQueue α cap) : Option α := l.elems.head?

def pop (l : DistinctQueue α cap) : DistinctQueue α cap where
  elems := l.elems.tail
  nodup := l.nodup.sublist l.elems.tail_sublist
  length_le := l.elems.tail_sublist.length_le.trans l.length_le

variable [DecidableEq α]

instance (l : DistinctQueue α cap) (a : α) : Decidable (l.Accepts a) :=
  inferInstanceAs (Decidable (_ ∧ _))

def push (l : DistinctQueue α cap) (a : α) : DistinctQueue α cap :=
  if h : l.Accepts a then
    { elems := l.elems ++ [a]
      nodup := List.Nodup.append l.nodup (List.nodup_singleton a) (by simpa using h.1)
      length_le := by simpa using h.2 }
  else l

def erase (l : DistinctQueue α cap) (a : α) : DistinctQueue α cap where
  elems := l.elems.erase a
  nodup := l.nodup.erase a
  length_le := List.erase_sublist.length_le.trans l.length_le

theorem push_elems {l : DistinctQueue α cap} {a : α} (h : l.Accepts a) :
    (l.push a).elems = l.elems ++ [a] := by
  rw [push, dif_pos h]

theorem push_of_not {l : DistinctQueue α cap} {a : α} (h : ¬l.Accepts a) : l.push a = l :=
  dif_neg h

end DistinctQueue

namespace RingBuffer

variable {α : Type*} {cap : ℕ}

/-! ## The loop of a removal -/

/-- One round : the next element is copied to the index, which moves on. -/
def shiftStep (cap : ℕ) (p : (ℕ → α) × ℕ) : (ℕ → α) × ℕ :=
  (Function.update p.1 p.2 (p.1 ((p.2 + 1) % cap)), (p.2 + 1) % cap)

/-- From `p`, the loop that goes on until the index is `tail` stops with `slots`. -/
def ShiftEnds (cap tail : ℕ) (p : (ℕ → α) × ℕ) (slots : ℕ → α) : Prop :=
  ∃ n, (shiftStep cap)^[n] p = (slots, tail) ∧ ∀ m < n, ((shiftStep cap)^[m] p).2 ≠ tail

/-- The loop that removes the element at `idx`, if it is entered, stops at the last element. -/
def RemovalEnds (q : RingBuffer α cap) (idx : ℕ) : Prop :=
  idx ≠ q.head →
    ShiftEnds cap ((q.head + q.count - 1) % cap) (q.slots, idx) (q.removeAt idx).slots

theorem ShiftEnds.step {tail : ℕ} {p : (ℕ → α) × ℕ} {slots : ℕ → α} (hp : p.2 ≠ tail)
    (h : ShiftEnds cap tail (shiftStep cap p) slots) : ShiftEnds cap tail p slots := by
  obtain ⟨n, hn, hbefore⟩ := h
  refine ⟨n + 1, hn, fun m hm => ?_⟩
  cases m with
  | zero => exact hp
  | succ m => exact hbefore m (by omega)

/-- The distance to the tail falls with every round. -/
theorem shiftEnds_shift (q : RingBuffer α cap) {tail : ℕ} (htail : tail < cap) :
    ∀ (fuel i : ℕ) (s : ℕ → α), i ≤ tail → tail < i + fuel →
      ShiftEnds cap (q.slot tail) (s, q.slot i) (shift cap (q.slot tail) fuel s (q.slot i))
  | 0, _, _, _, hfuel => absurd hfuel (by omega)
  | fuel + 1, i, s, hi, hfuel => by
    unfold shift
    by_cases hit : i = tail
    · rw [if_pos (by rw [hit]), hit]
      exact ⟨0, rfl, fun m hm => absurd hm m.not_lt_zero⟩
    have hne : q.slot i ≠ q.slot tail := fun h => hit (slot_inj (by omega) htail h)
    rw [if_neg hne]
    refine ShiftEnds.step hne ?_
    have hnext := shiftEnds_shift q htail fuel (i + 1)
      (Function.update s (q.slot i) (s (q.slot (i + 1)))) (by omega) (by omega)
    rw [← slot_succ] at hnext
    exact hnext

theorem removalEnds_slot {q : RingBuffer α cap} (h : q.WF) {j : ℕ} (hj : j < q.count) :
    q.RemovalEnds (q.slot j) := by
  intro hne
  have hle := h.count_le
  have htail : (q.head + q.count - 1) % cap = q.slot (q.count - 1) := by
    rw [slot, Nat.add_sub_assoc (by omega)]
  have hslots : (q.removeAt (q.slot j)).slots =
      shift cap (q.slot (q.count - 1)) cap q.slots (q.slot j) := by
    unfold removeAt
    rw [if_neg (by omega), if_neg hne, htail]
  rw [hslots, htail]
  exact shiftEnds_shift q (by omega) cap j _ (by omega) (by omega)

theorem removalEnds_index [DecidableEq α] {q : RingBuffer α cap} (h : q.WF) {a : α} {idx : ℕ}
    (hidx : q.index a = some idx) : q.RemovalEnds idx := by
  obtain ⟨hmem, rfl⟩ := index_eq_some hidx
  exact removalEnds_slot h (by simpa using List.idxOf_lt_length_of_mem hmem)

/-! ## The queue in a ring -/

/-- The ring is within its bounds, and its elements are those of the queue. -/
structure Holds (q : RingBuffer α cap) (l : DistinctQueue α cap) : Prop extends WF q where
  toList : q.toList = l.elems

/-- Every ring within its bounds with distinct elements holds a queue. -/
theorem WF.exists_holds {q : RingBuffer α cap} (h : q.WF) (hnd : q.toList.Nodup) :
    ∃ l : DistinctQueue α cap, q.Holds l :=
  ⟨⟨q.toList, hnd, by simpa using h.count_le⟩, h, rfl⟩

namespace Holds

variable {q : RingBuffer α cap} {l : DistinctQueue α cap}

theorem count_eq (h : q.Holds l) : q.count = l.elems.length := by
  rw [← h.toList, length_toList]

theorem elems_eq_nil (h : q.Holds l) : l.elems = [] ↔ q.count = 0 := by
  rw [← h.toList, toList_eq_nil]

theorem pop (h : q.Holds l) : q.pop.Holds l.pop :=
  ⟨h.toWF.pop, by rw [toList_pop, h.toList]; rfl⟩

theorem front_eq (h : q.Holds l) (hne : q.count ≠ 0) : l.front = some (q.slots q.head) := by
  rw [DistinctQueue.front, ← h.toList, toList_eq_cons h.toWF hne, List.head?_cons]

variable [DecidableEq α] {a : α}

theorem index_eq_none_iff (h : q.Holds l) : q.index a = none ↔ a ∉ l.elems := by
  rw [index_eq_none, h.toList]

theorem push (h : q.Holds l) (ha : l.Accepts a) : (q.push a).Holds (l.push a) := by
  have hroom : q.count < cap := by
    rw [h.count_eq]
    exact ha.2
  refine ⟨h.toWF.push hroom a, ?_⟩
  rw [toList_push hroom, h.toList, DistinctQueue.push_elems ha]

theorem removeAt_index (h : q.Holds l) {idx : ℕ} (hidx : q.index a = some idx) :
    (q.removeAt idx).Holds (l.erase a) :=
  ⟨h.toWF.removeAt idx, by rw [(toList_removeAt_index h.toWF hidx).2, h.toList]; rfl⟩

end Holds

end RingBuffer
