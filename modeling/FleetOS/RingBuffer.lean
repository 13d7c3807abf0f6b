import Mathlib.Data.List.Basic
import Mathlib.Data.Nat.ModEq
import Mathlib.Tactic

/-!
# Ring buffers

A ring buffer of capacity `cap` keeps `count` elements in an array, the first at `head` and
the next ones at the following indices, modulo `cap`. `toList` reads them off in order.

`push` writes behind the last element, `pop` steps over the first, and `removeAt` takes out
the element at an index by moving every later element one index back, unless the index is
the head. On a ring within its bounds (`WF`) they are the list operations : `toList_push`,
`toList_pop` and `toList_removeAt`. `index` is the search for an element (`index_eq_some`).
-/

/-- A circular queue. Indices that hold no element keep whatever was written last. -/
structure RingBuffer (α : Type*) (cap : ℕ) where
  slots : ℕ → α
  head : ℕ
  count : ℕ

namespace RingBuffer

variable {α : Type*} {cap : ℕ}

/-! ## Operations -/

/-- The index of the `i`-th element. -/
def slot (q : RingBuffer α cap) (i : ℕ) : ℕ := (q.head + i) % cap

/-- The `i`-th element. -/
def get (q : RingBuffer α cap) (i : ℕ) : α := q.slots (q.slot i)

/-- The elements in order. -/
def toList (q : RingBuffer α cap) : List α := (List.range q.count).map q.get

/-- The head is an index and the elements fit. -/
structure WF (q : RingBuffer α cap) : Prop where
  head_lt : q.head < cap
  count_le : q.count ≤ cap

/-- The index of the first element equal to `a`. -/
def index [DecidableEq α] (q : RingBuffer α cap) (a : α) : Option ℕ :=
  ((List.range q.count).find? fun i => q.get i = a).map q.slot

/-- Write behind the last element. There is no test for room. -/
def push (q : RingBuffer α cap) (a : α) : RingBuffer α cap :=
  { q with slots := Function.update q.slots (q.slot q.count) a, count := q.count + 1 }

/-- Step over the first element. -/
def pop (q : RingBuffer α cap) : RingBuffer α cap :=
  { q with head := (q.head + 1) % cap, count := q.count - 1 }

/-- Copy each index from `i` up to `tail` from the next one, at most `fuel` times. -/
def shift (cap : ℕ) (tail : ℕ) : ℕ → (ℕ → α) → ℕ → (ℕ → α)
  | 0, s, _ => s
  | fuel + 1, s, i =>
    if i = tail then s
    else shift cap tail fuel (Function.update s i (s ((i + 1) % cap))) ((i + 1) % cap)

/-- Take out the element at index `idx`. -/
def removeAt (q : RingBuffer α cap) (idx : ℕ) : RingBuffer α cap :=
  if q.count = 0 then q
  else if idx = q.head then q.pop
  else
    { q with
      slots := shift cap ((q.head + q.count - 1) % cap) cap q.slots idx
      count := q.count - 1 }

/-! ## The elements -/

@[simp] theorem length_toList (q : RingBuffer α cap) : q.toList.length = q.count := by
  simp [toList]

theorem toList_eq_nil (q : RingBuffer α cap) : q.toList = [] ↔ q.count = 0 := by
  simp [toList]

@[simp] theorem getElem_toList (q : RingBuffer α cap) (i : ℕ) (h : i < q.toList.length) :
    q.toList[i] = q.get i := by
  simp [toList]

theorem slot_inj {q : RingBuffer α cap} {i j : ℕ} (hi : i < cap) (hj : j < cap)
    (h : q.slot i = q.slot j) : i = j := by
  have h' : i ≡ j [MOD cap] := Nat.ModEq.add_left_cancel' q.head h
  rwa [Nat.ModEq, Nat.mod_eq_of_lt hi, Nat.mod_eq_of_lt hj] at h'

theorem slot_zero {q : RingBuffer α cap} (h : q.WF) : q.slot 0 = q.head := by
  simp [slot, Nat.mod_eq_of_lt h.head_lt]

theorem slot_succ (q : RingBuffer α cap) (i : ℕ) : (q.slot i + 1) % cap = q.slot (i + 1) := by
  simp [slot, Nat.add_assoc]

theorem WF.push {q : RingBuffer α cap} (h : q.WF) (hroom : q.count < cap) (a : α) :
    (q.push a).WF :=
  ⟨h.head_lt, hroom⟩

theorem WF.pop {q : RingBuffer α cap} (h : q.WF) : q.pop.WF :=
  ⟨Nat.mod_lt _ (Nat.zero_lt_of_lt h.head_lt), (Nat.sub_le _ _).trans h.count_le⟩

theorem WF.removeAt {q : RingBuffer α cap} (h : q.WF) (idx : ℕ) : (q.removeAt idx).WF := by
  unfold RingBuffer.removeAt
  split_ifs
  · exact h
  · exact h.pop
  · exact ⟨h.head_lt, (Nat.sub_le _ _).trans h.count_le⟩

/-- With room for it, the pushed element is the last. -/
theorem toList_push {q : RingBuffer α cap} (hroom : q.count < cap) (a : α) :
    (q.push a).toList = q.toList ++ [a] := by
  have hold : ∀ i ∈ List.range q.count, (q.push a).get i = q.get i := by
    intro i hi
    have hi := List.mem_range.mp hi
    have hne : q.slot i ≠ q.slot q.count := fun h => by
      have := slot_inj (by omega) hroom h
      omega
    exact Function.update_of_ne hne _ _
  have hnew : (q.push a).get q.count = a := Function.update_self _ _ _
  simp only [toList, show (q.push a).count = q.count + 1 from rfl, List.range_succ, List.map_append,
    List.map_congr_left hold, List.map_cons, List.map_nil, hnew]

/-- Popping drops the first element. -/
theorem toList_pop (q : RingBuffer α cap) : q.pop.toList = q.toList.tail := by
  refine List.ext_getElem (by simp [pop]) fun i hi _ => ?_
  simp only [getElem_toList, List.getElem_tail]
  simp [get, slot, pop, Nat.add_comm, Nat.add_left_comm]

theorem toList_eq_cons {q : RingBuffer α cap} (h : q.WF) (hne : q.count ≠ 0) :
    q.toList = q.slots q.head :: q.pop.toList := by
  have hpos : 0 < q.toList.length := by
    rw [length_toList]
    exact Nat.pos_of_ne_zero hne
  rw [toList_pop, ← slot_zero h]
  have hhead : q.toList.head (List.ne_nil_of_length_pos hpos) = q.get 0 := by
    rw [List.head_eq_getElem, getElem_toList]
  change _ = q.get 0 :: _
  rw [← hhead, List.cons_head_tail]

/-! ## Search -/

section

variable [DecidableEq α]

theorem index_eq_none {q : RingBuffer α cap} {a : α} : q.index a = none ↔ a ∉ q.toList := by
  simp [index, toList, List.find?_eq_none]

/-- The search stops at the index of the first occurrence. -/
theorem index_eq_some {q : RingBuffer α cap} {a : α} {s : ℕ} (h : q.index a = some s) :
    a ∈ q.toList ∧ s = q.slot (q.toList.idxOf a) := by
  obtain ⟨i, hi, rfl⟩ := Option.map_eq_some_iff.mp h
  obtain ⟨ha, hlt, hbefore⟩ := List.find?_range_eq_some.mp hi
  have ha : q.get i = a := by simpa using ha
  have hlen : i < q.toList.length := by simpa using hlt
  have hmem : a ∈ q.toList := ha ▸ q.getElem_toList i hlen ▸ List.getElem_mem hlen
  refine ⟨hmem, congrArg q.slot ?_⟩
  have hidx := List.idxOf_lt_length_of_mem hmem
  rcases Nat.lt_trichotomy i (q.toList.idxOf a) with hlt | heq | hgt
  · simpa [ha] using List.not_of_lt_findIdx hlt
  · exact heq
  · have := hbefore _ hgt
    rw [← getElem_toList (h := hidx)] at this
    simp at this

theorem index_isSome {q : RingBuffer α cap} {a : α} : (q.index a).isSome ↔ a ∈ q.toList := by
  rw [Option.isSome_iff_ne_none, Ne, index_eq_none, not_not]

end

/-! ## Removal -/

/-- From the `i`-th element on, the copying loop moves each element one place forward, up
to the `tail`-th. -/
theorem shift_slot (q : RingBuffer α cap) {tail : ℕ} (htail : tail < cap) :
    ∀ (fuel i : ℕ) (s : ℕ → α), i ≤ tail → tail < i + fuel → ∀ j < cap,
      shift cap (q.slot tail) fuel s (q.slot i) (q.slot j) =
        if i ≤ j ∧ j < tail then s (q.slot (j + 1)) else s (q.slot j)
  | 0, _, _, _, hfuel, _, _ => absurd hfuel (by omega)
  | fuel + 1, i, s, hi, hfuel, j, hj => by
    unfold shift
    by_cases hit : i = tail
    · rw [if_pos (by rw [hit]), if_neg (by omega)]
    have hne : q.slot i ≠ q.slot tail := fun h => hit (slot_inj (by omega) htail h)
    rw [if_neg hne, slot_succ, shift_slot q htail fuel (i + 1) _ (by omega) (by omega) j hj]
    have hold : ∀ k < cap, k ≠ i →
        Function.update s (q.slot i) (s (q.slot (i + 1))) (q.slot k) = s (q.slot k) := by
      intro k hk hki
      exact Function.update_of_ne (fun h => hki (slot_inj hk (by omega) h)) _ _
    by_cases hji : j = i
    · subst hji
      rw [if_neg (by omega), if_pos (by omega), Function.update_self]
    · rw [hold j hj hji]
      split_ifs with h1 h2 h2
      · exact hold _ (by omega) (by omega)
      · omega
      · omega
      · rfl

/-- Removing at the index of the `j`-th element erases it and keeps the order of the rest. -/
theorem toList_removeAt {q : RingBuffer α cap} (h : q.WF) {j : ℕ} (hj : j < q.count) :
    (q.removeAt (q.slot j)).toList = q.toList.eraseIdx j := by
  have hle := h.count_le
  unfold removeAt
  rw [if_neg (by omega)]
  by_cases hj0 : j = 0
  · rw [if_pos (by rw [hj0, slot_zero h]), toList_pop, hj0, List.eraseIdx_zero]
  have hne : q.slot j ≠ q.head := fun he =>
    hj0 (slot_inj (by omega) (by omega) (he.trans (slot_zero h).symm))
  have htail : (q.head + q.count - 1) % cap = q.slot (q.count - 1) := by
    rw [slot, Nat.add_sub_assoc (by omega)]
  rw [if_neg hne, htail]
  refine List.ext_getElem (by simp [List.length_eraseIdx, hj]) fun i hi _ => ?_
  have hi : i < q.count - 1 := by simpa using hi
  rw [getElem_toList, List.getElem_eraseIdx]
  change shift cap (q.slot (q.count - 1)) cap q.slots (q.slot j) (q.slot i) = _
  rw [shift_slot q (by omega) cap j _ (by omega) (by omega) i (by omega)]
  by_cases hij : i < j
  · rw [if_neg (by omega), dif_pos hij, getElem_toList]
    rfl
  · rw [if_pos (by omega), dif_neg hij, getElem_toList]
    rfl

/-- Removing at the index that the search finds erases the element. -/
theorem toList_removeAt_index [DecidableEq α] {q : RingBuffer α cap} (h : q.WF) {a : α} {s : ℕ}
    (hs : q.index a = some s) : a ∈ q.toList ∧ (q.removeAt s).toList = q.toList.erase a := by
  obtain ⟨hmem, rfl⟩ := index_eq_some hs
  have hlt : q.toList.idxOf a < q.count := by
    simpa using List.idxOf_lt_length_of_mem hmem
  exact ⟨hmem, (toList_removeAt h hlt).trans (List.erase_eq_eraseIdx_of_idxOf rfl).symm⟩

end RingBuffer
