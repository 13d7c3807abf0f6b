import FleetOS.RingBuffer
import FleetOS.Sync

/-!
# The bounded buffer is a FIFO queue

`Fifo` is a queue of bounded length : `offer` appends unless the queue is full, `take`
removes the first item unless the queue is empty.

Between two calls the mutex of the buffer is free and nobody waits for it
(`BoundedBuffer.Inv`), so every call gets the lock and `RingBuffer` describes the rest : the
stored items are the ring from `out` on, and `in` is the slot behind the last of them.
`BufferHistory.Inv.step` is one call, `bufferRun_inv` a sequence of calls, with the items produced
and consumed so far. The responses are those of the queue (`bufferRun_refines`).
-/

namespace FleetOS

/-! ## The queue -/

/-- A list of at most `cap` items. -/
structure Fifo (α : Type*) (cap : ℕ) where
  items : List α
  length_le : items.length ≤ cap

namespace Fifo

variable {α : Type*} {cap : ℕ}

def empty : Fifo α cap := ⟨[], Nat.zero_le _⟩

/-- Append, unless the queue is full. -/
def offer (q : Fifo α cap) (a : α) : Option (Fifo α cap) :=
  if h : q.items.length < cap then some ⟨q.items ++ [a], by simpa using h⟩ else none

/-- Remove the first item, unless the queue is empty. -/
def take (q : Fifo α cap) : Option (α × Fifo α cap) :=
  match h : q.items with
  | [] => none
  | a :: as => some (a, ⟨as, by
      have := q.length_le
      rw [h, List.length_cons] at this
      omega⟩)

theorem ext' {p q : Fifo α cap} (h : p.items = q.items) : p = q := by
  cases p
  cases q
  congr

theorem take_nil {q : Fifo α cap} (h : q.items = []) : q.take = none := by
  obtain ⟨items, hle⟩ := q
  subst h
  rfl

theorem take_cons {q q' : Fifo α cap} {a : α} (h : q.items = a :: q'.items) :
    q.take = some (a, q') := by
  obtain ⟨items, hle⟩ := q
  subst h
  rfl

end Fifo

/-! ## The calls -/

inductive BufferCall
  | produce (item pid : ℤ)
  | consume (pid : ℤ)
  | removePid (pid : ℤ)
  | releaseMutex (pid : ℤ)

/-- What a caller sees : the result and the item. -/
abbrev Response := ℤ × Option ℤ

def bufferCall (b : BoundedBuffer) : BufferCall → BoundedBuffer × Option Response
  | .produce item pid =>
    let r := bufferProduce b item pid
    (r.buf, some (r.ret, r.item))
  | .consume pid =>
    let r := bufferConsume b pid
    (r.buf, some (r.ret, r.item))
  | .removePid pid => (bufferRemovePid b pid, none)
  | .releaseMutex pid => (bufferReleaseMutex b pid, none)

/-- The same call on the queue : clean-up calls do not concern it. -/
def Fifo.call (q : Fifo ℤ ringBufferSize) : BufferCall → Fifo ℤ ringBufferSize × Option Response
  | .produce item _ =>
    match q.offer item with
    | none => (q, some (-1, none))
    | some q' => (q', some (0, none))
  | .consume _ =>
    match q.take with
    | none => (q, some (-1, none))
    | some (item, q') => (q', some (0, some item))
  | .removePid _ => (q, none)
  | .releaseMutex _ => (q, none)

/-- A buffer with the items that successful calls have put in and taken out so far. -/
structure BufferHistory where
  buf : BoundedBuffer
  produced : List ℤ
  consumed : List ℤ

def BufferHistory.step (h : BufferHistory) (c : BufferCall) : BufferHistory where
  buf := (bufferCall h.buf c).1
  produced := match c, (bufferCall h.buf c).2 with
    | .produce item _, some (0, _) => h.produced ++ [item]
    | _, _ => h.produced
  consumed := match (bufferCall h.buf c).2 with
    | some (0, some item) => h.consumed ++ [item]
    | _ => h.consumed

def bufferRun (cs : List BufferCall) : BufferHistory :=
  cs.foldl BufferHistory.step ⟨bufferInit, [], []⟩

/-! ## One call -/

namespace BoundedBuffer

/-- The stored items as a ring. -/
def ring (b : BoundedBuffer) : RingBuffer ℤ ringBufferSize := ⟨b.buffer, b.outPos, b.count⟩

def items (b : BoundedBuffer) : List ℤ := b.ring.toList

/-- Nobody holds the mutex or waits for it. -/
def MutexFree (b : BoundedBuffer) : Prop :=
  b.mutex = mutexInit

structure Inv (b : BoundedBuffer) : Prop where
  ring_wf : b.ring.WF
  in_eq : b.inPos = (b.outPos + b.count) % ringBufferSize
  mutexFree : b.MutexFree

/-- The queue a buffer stands for. -/
def toFifo (b : BoundedBuffer) (h : b.Inv) : Fifo ℤ ringBufferSize :=
  ⟨b.items, by simpa [items] using h.ring_wf.count_le⟩

@[simp] theorem length_items (b : BoundedBuffer) : b.items.length = b.count :=
  b.ring.length_toList

end BoundedBuffer

open BoundedBuffer

theorem mutexLock_free {m : Mutex} (h : m = mutexInit) (pid : ℤ) :
    mutexLock m pid = ({ locked := true, ownerPid := pid, waitQueue := [] }, 0) := by
  subst h
  rfl

theorem mutexUnlock_of_no_waiter {m : Mutex} (h : m.waitQueue = []) :
    mutexUnlock m = (mutexInit, -1) := by
  simp [mutexUnlock, mutexInit, h]

theorem inv_bufferInit : bufferInit.Inv :=
  ⟨⟨by decide, Nat.zero_le _⟩, rfl, rfl⟩

/-- On a full buffer the producer queues on `not_full`. -/
theorem bufferProduce_full {b : BoundedBuffer} (h : b.Inv) (hfull : ringBufferSize ≤ b.count)
    (item pid : ℤ) :
    bufferProduce b item pid =
      ⟨{ b with notFull := (condWait b.notFull mutexInit pid).1, mutex := mutexInit }, -1, none,
        []⟩ := by
  simp only [bufferProduce, mutexLock_free h.mutexFree, hfull, condWait]
  split_ifs <;> simp_all [mutexUnlock, mutexInit]

/-- On an empty buffer the consumer queues on `not_empty`. -/
theorem bufferConsume_empty {b : BoundedBuffer} (h : b.Inv) (hempty : b.count = 0) (pid : ℤ) :
    bufferConsume b pid =
      ⟨{ b with notEmpty := (condWait b.notEmpty mutexInit pid).1, mutex := mutexInit }, -1, none,
        []⟩ := by
  simp only [bufferConsume, mutexLock_free h.mutexFree, hempty, condWait]
  split_ifs <;> simp_all [mutexUnlock, mutexInit]

/-- With room the item goes behind the last one. -/
theorem bufferProduce_room {b : BoundedBuffer} (h : b.Inv) (hroom : b.count < ringBufferSize)
    (item pid : ℤ) :
    bufferProduce b item pid =
      ⟨{ b with
          buffer := Function.update b.buffer b.inPos item
          inPos := (b.inPos + 1) % ringBufferSize
          count := b.count + 1
          notEmpty := ⟨b.notEmpty.waitQueue.tail⟩
          mutex := mutexInit },
        0, none, addWake [] (b.notEmpty.waitQueue.headD (-1))⟩ := by
  simp only [bufferProduce, mutexLock_free h.mutexFree, mutexUnlock_of_no_waiter, condSignal]
  rw [if_neg (by omega), if_neg (by omega)]
  simp [addWake]

theorem bufferConsume_items {b : BoundedBuffer} (h : b.Inv) (hne : b.count ≠ 0) (pid : ℤ) :
    bufferConsume b pid =
      ⟨{ b with
          outPos := (b.outPos + 1) % ringBufferSize
          count := b.count - 1
          notFull := ⟨b.notFull.waitQueue.tail⟩
          mutex := mutexInit },
        0, some (b.buffer b.outPos), addWake [] (b.notFull.waitQueue.headD (-1))⟩ := by
  simp only [bufferConsume, mutexLock_free h.mutexFree, mutexUnlock_of_no_waiter, condSignal]
  rw [if_neg (by omega), if_neg hne]
  simp [addWake]

/-- A produced item is the last of the stored ones. -/
theorem produce_room {b : BoundedBuffer} (h : b.Inv) (hroom : b.count < ringBufferSize)
    (item pid : ℤ) :
    (bufferProduce b item pid).ret = 0 ∧ (bufferProduce b item pid).buf.Inv ∧
      (bufferProduce b item pid).buf.items = b.items ++ [item] := by
  rw [bufferProduce_room h hroom]
  have hpush : (⟨Function.update b.buffer b.inPos item, b.outPos, b.count + 1⟩ :
      RingBuffer ℤ ringBufferSize) = b.ring.push item := by
    rw [h.in_eq]
    rfl
  refine ⟨rfl, ⟨?_, ?_, rfl⟩, ?_⟩
  · exact (congrArg RingBuffer.WF hpush).mpr (h.ring_wf.push hroom item)
  · simp [h.in_eq, Nat.add_assoc]
  · exact (congrArg RingBuffer.toList hpush).trans (RingBuffer.toList_push hroom item)

/-- A consumed item was the first of the stored ones. -/
theorem consume_items {b : BoundedBuffer} (h : b.Inv) (hne : b.count ≠ 0) (pid : ℤ) :
    ∃ item, (bufferConsume b pid).ret = 0 ∧ (bufferConsume b pid).item = some item ∧
      (bufferConsume b pid).buf.Inv ∧ b.items = item :: (bufferConsume b pid).buf.items := by
  rw [bufferConsume_items h hne]
  refine ⟨b.buffer b.outPos, rfl, rfl, ⟨h.ring_wf.pop, ?_, rfl⟩, ?_⟩
  · have hin := h.in_eq
    simp only [hin, Nat.mod_add_mod]
    congr 1
    omega
  · exact RingBuffer.toList_eq_cons h.ring_wf hne

theorem produce_full {b : BoundedBuffer} (h : b.Inv) (hfull : ringBufferSize ≤ b.count)
    (item pid : ℤ) :
    (bufferProduce b item pid).ret = -1 ∧ (bufferProduce b item pid).buf.Inv ∧
      (bufferProduce b item pid).buf.items = b.items := by
  rw [bufferProduce_full h hfull]
  exact ⟨rfl, ⟨h.ring_wf, h.in_eq, rfl⟩, rfl⟩

theorem consume_empty {b : BoundedBuffer} (h : b.Inv) (hempty : b.count = 0) (pid : ℤ) :
    (bufferConsume b pid).ret = -1 ∧ (bufferConsume b pid).item = none ∧
      (bufferConsume b pid).buf.Inv ∧ (bufferConsume b pid).buf.items = b.items := by
  rw [bufferConsume_empty h hempty]
  exact ⟨rfl, rfl, ⟨h.ring_wf, h.in_eq, rfl⟩, rfl⟩

theorem removePid_eq (queue : List ℤ) (pid : ℤ) :
    removePid queue pid = queue.filter fun p => p ≠ pid ∧ 0 ≤ p := by
  induction queue with
  | nil => rfl
  | cons p queue ih =>
    unfold removePid at ih ⊢
    rw [List.map_cons, List.filter_cons, List.filter_cons, ih]
    by_cases hp : p = pid <;> simp [hp]

theorem mem_condWait {cv : CondVar} {m : Mutex} {pid w : ℤ}
    (h : w ∈ (condWait cv m pid).1.waitQueue) : w ∈ cv.waitQueue ∨ w = pid := by
  unfold condWait at h
  dsimp only at h
  split_ifs at h
  · exact Or.inl h
  · exact (List.mem_append.mp h).imp_right List.mem_singleton.mp
  · exact Or.inl h

theorem condWait_waitQueue {cv : CondVar} (m : Mutex) {pid : ℤ} (h : pid ∉ cv.waitQueue)
    (hl : cv.waitQueue.length < maxThreads) :
    (condWait cv m pid).1.waitQueue = cv.waitQueue ++ [pid] := by
  unfold condWait
  dsimp only
  rw [if_neg h, if_pos hl]

theorem nodup_condWait {cv : CondVar} {m : Mutex} {pid : ℤ} (h : cv.waitQueue.Nodup) :
    (condWait cv m pid).1.waitQueue.Nodup := by
  unfold condWait
  dsimp only
  split_ifs with hmem
  · exact h
  · exact List.concat_eq_append ▸ h.concat hmem
  · exact h

theorem removePid_inv {b : BoundedBuffer} (h : b.Inv) (pid : ℤ) :
    (bufferRemovePid b pid).Inv ∧ (bufferRemovePid b pid).items = b.items := by
  refine ⟨⟨h.ring_wf, h.in_eq, ?_⟩, rfl⟩
  have hm : b.mutex = mutexInit := h.mutexFree
  simp [MutexFree, bufferRemovePid, hm, mutexInit, removePid]

theorem releaseMutex_eq {b : BoundedBuffer} (h : b.Inv) (pid : ℤ) :
    bufferReleaseMutex b pid = b := by
  have hm : b.mutex = mutexInit := h.mutexFree
  simp [bufferReleaseMutex, hm, mutexInit]

/-! ## Runs -/

/-- One call keeps the invariant and acts as the queue does. -/
theorem bufferCall_refines {b : BoundedBuffer} (h : b.Inv) (c : BufferCall) :
    ∃ h' : (bufferCall b c).1.Inv,
      ((bufferCall b c).1.toFifo h', (bufferCall b c).2) = (b.toFifo h).call c := by
  cases c with
  | produce item pid =>
    by_cases hroom : b.count < ringBufferSize
    · obtain ⟨hret, hinv, hitems⟩ := produce_room h hroom item pid
      have hitem : (bufferProduce b item pid).item = none := by rw [bufferProduce_room h hroom]
      have hoffer : (b.toFifo h).offer item =
          some ⟨b.items ++ [item], by simpa using hroom⟩ := by
        simp [Fifo.offer, toFifo, hroom]
      refine ⟨hinv, ?_⟩
      simp only [bufferCall, Fifo.call, hoffer, hret, hitem]
      exact Prod.ext (Fifo.ext' hitems) rfl
    · obtain ⟨hret, hinv, hitems⟩ := produce_full h (not_lt.mp hroom) item pid
      have hitem : (bufferProduce b item pid).item = none := by
        rw [bufferProduce_full h (not_lt.mp hroom)]
      have hoffer : (b.toFifo h).offer item = none := by
        simp [Fifo.offer, toFifo, hroom]
      refine ⟨hinv, ?_⟩
      simp only [bufferCall, Fifo.call, hoffer, hret, hitem]
      exact Prod.ext (Fifo.ext' hitems) rfl
  | consume pid =>
    by_cases hne : b.count = 0
    · obtain ⟨hret, hitem, hinv, hitems⟩ := consume_empty h hne pid
      have hnil : (b.toFifo h).items = [] := List.eq_nil_of_length_eq_zero (by simpa [toFifo])
      refine ⟨hinv, ?_⟩
      simp only [bufferCall, Fifo.call, Fifo.take_nil hnil, hret, hitem]
      exact Prod.ext (Fifo.ext' hitems) rfl
    · obtain ⟨item, hret, hitem, hinv, hitems⟩ := consume_items h hne pid
      have htake : (b.toFifo h).take = some (item, (bufferConsume b pid).buf.toFifo hinv) :=
        Fifo.take_cons hitems
      refine ⟨hinv, ?_⟩
      simp only [bufferCall, Fifo.call, htake, hret, hitem]
  | removePid pid =>
    obtain ⟨hinv, hitems⟩ := removePid_inv h pid
    exact ⟨hinv, Prod.ext (Fifo.ext' hitems) rfl⟩
  | releaseMutex pid =>
    have he := releaseMutex_eq h pid
    have hinv : (bufferReleaseMutex b pid).Inv := by rwa [he]
    exact ⟨hinv, Prod.ext (Fifo.ext' (congrArg items he)) rfl⟩

/-- The invariant of a run : no item is lost, doubled or overtaken. -/
structure BufferHistory.Inv (h : BufferHistory) : Prop where
  buf : h.buf.Inv
  order : h.produced = h.consumed ++ h.buf.items

theorem BufferHistory.Inv.step {h : BufferHistory} (hi : h.Inv) (c : BufferCall) :
    (h.step c).Inv := by
  refine ⟨(bufferCall_refines hi.buf c).1, ?_⟩
  have hord := hi.order
  cases c with
  | produce item pid =>
    by_cases hroom : h.buf.count < ringBufferSize
    · obtain ⟨hret, -, hitems⟩ := produce_room hi.buf hroom item pid
      have hitem : (bufferProduce h.buf item pid).item = none := by
        rw [bufferProduce_room hi.buf hroom]
      simp [BufferHistory.step, bufferCall, hret, hitem, hitems, hord]
    · obtain ⟨hret, -, hitems⟩ := produce_full hi.buf (not_lt.mp hroom) item pid
      simp [BufferHistory.step, bufferCall, hret, hitems, hord]
  | consume pid =>
    by_cases hne : h.buf.count = 0
    · obtain ⟨hret, -, -, hitems⟩ := consume_empty hi.buf hne pid
      simp [BufferHistory.step, bufferCall, hret, hitems, hord]
    · obtain ⟨item, hret, hitem, -, hitems⟩ := consume_items hi.buf hne pid
      simp [BufferHistory.step, bufferCall, hret, hitem, hitems, hord]
  | removePid pid =>
    simpa [BufferHistory.step, bufferCall, (removePid_inv hi.buf pid).2] using hord
  | releaseMutex pid =>
    simpa [BufferHistory.step, bufferCall, releaseMutex_eq hi.buf pid] using hord

theorem bufferRun_inv (cs : List BufferCall) : (bufferRun cs).Inv :=
  List.foldlRecOn cs BufferHistory.step ⟨inv_bufferInit, rfl⟩ fun _ hi c _ => hi.step c

/-- The responses of a run, in order. -/
def bufferResponses : BoundedBuffer → List BufferCall → List (Option Response)
  | _, [] => []
  | b, c :: cs => (bufferCall b c).2 :: bufferResponses (bufferCall b c).1 cs

def Fifo.responses : Fifo ℤ ringBufferSize → List BufferCall → List (Option Response)
  | _, [] => []
  | q, c :: cs => (q.call c).2 :: (q.call c).1.responses cs

/-- No client can tell the buffer from the queue. -/
theorem bufferRun_refines {b : BoundedBuffer} (h : b.Inv) (cs : List BufferCall) :
    bufferResponses b cs = (b.toFifo h).responses cs := by
  induction cs generalizing b with
  | nil => rfl
  | cons c cs ih =>
    obtain ⟨h', he⟩ := bufferCall_refines h c
    rw [bufferResponses, Fifo.responses, ← he, ih h']

/-- After any sequence of calls the bounded buffer is a FIFO queue of capacity
`RING_BUFFER_SIZE` : its responses are the queue's, the next produce fails exactly if the
queue is full and the next consume exactly if it is empty, a failed call leaves the items
as they are, what was consumed is the first part of what was produced and the stored items
are the rest, and the mutex is free with nobody waiting. -/
theorem buffer_refines_fifo (cs : List BufferCall) :
    bufferResponses bufferInit cs = Fifo.empty.responses cs ∧
      (∀ item pid, ((bufferProduce (bufferRun cs).buf item pid).ret = -1 ↔
          (bufferRun cs).buf.items.length = ringBufferSize) ∧
        ((bufferProduce (bufferRun cs).buf item pid).ret = -1 →
          (bufferProduce (bufferRun cs).buf item pid).buf.items = (bufferRun cs).buf.items)) ∧
      (∀ pid, ((bufferConsume (bufferRun cs).buf pid).ret = -1 ↔ (bufferRun cs).buf.items = []) ∧
        ((bufferConsume (bufferRun cs).buf pid).ret = -1 →
          (bufferConsume (bufferRun cs).buf pid).buf.items = (bufferRun cs).buf.items)) ∧
      (bufferRun cs).produced = (bufferRun cs).consumed ++ (bufferRun cs).buf.items ∧
      ((bufferRun cs).buf.count : ℤ) =
        (bufferRun cs).produced.length - (bufferRun cs).consumed.length ∧
      (bufferRun cs).buf.inPos =
        ((bufferRun cs).buf.outPos + (bufferRun cs).buf.count) % ringBufferSize ∧
      (bufferRun cs).buf.mutex.locked = false ∧ (bufferRun cs).buf.mutex.ownerPid = -1 ∧
      (bufferRun cs).buf.mutex.waitQueue = [] := by
  obtain ⟨hinv, hord⟩ := bufferRun_inv cs
  generalize bufferRun cs = h at hinv hord ⊢
  have hm : h.buf.mutex = mutexInit := hinv.mutexFree
  have hcount := congrArg List.length hord
  rw [List.length_append, length_items] at hcount
  refine ⟨bufferRun_refines inv_bufferInit cs, fun item pid => ?_, fun pid => ?_, hord, by omega,
    hinv.in_eq, by rw [hm]; rfl, by rw [hm]; rfl, by rw [hm]; rfl⟩
  · have hle : h.buf.count ≤ ringBufferSize := hinv.ring_wf.count_le
    rw [length_items]
    by_cases hroom : h.buf.count < ringBufferSize
    · obtain ⟨hret, -, -⟩ := produce_room hinv hroom item pid
      rw [hret]
      exact ⟨⟨fun h => by omega, fun h => by omega⟩, fun h => by omega⟩
    · obtain ⟨hret, -, hitems⟩ := produce_full hinv (not_lt.mp hroom) item pid
      exact ⟨⟨fun _ => by omega, fun _ => hret⟩, fun _ => hitems⟩
  · by_cases hne : h.buf.count = 0
    · obtain ⟨hret, -, -, hitems⟩ := consume_empty hinv hne pid
      refine ⟨⟨fun _ => ?_, fun _ => hret⟩, fun _ => hitems⟩
      exact List.eq_nil_of_length_eq_zero ((length_items _).trans hne)
    · obtain ⟨item, hret, -, -, hitems⟩ := consume_items hinv hne pid
      rw [hret, hitems]
      exact ⟨⟨fun h => by omega, fun h => by cases h⟩, fun h => by omega⟩

end FleetOS
