import FleetOS.IoEvents
import FleetOS.Odometer

/-!
# Copies of events

The compaction moves the events to the front and leaves them where they were as well, so the slots
behind `pending_count` fill up with copies (`Kernel.Stored`), and the search of an I/O write takes
these for events. A write behind them brings the copies before it back (`Registered`), and the next
tick completes those that are due. Seen as binary digits the active slots are a number that every
write makes larger (`value_advances`).
-/

namespace FleetOS

/-! ## Stored events -/

/-- An active event anywhere in the array, below `pending_count` or not. -/
structure Kernel.Stored (k : Kernel) (e : PendingEvent) : Prop where
  active : e.active = true
  slot : ∃ i, k.pending i = e

variable {k k' : Kernel} {e : PendingEvent}

theorem stored_of_mem (he : e ∈ k.events) : k.Stored e := by
  obtain ⟨i, -, hi, ha⟩ := mem_events.mp he
  exact ⟨ha, i, hi⟩

/-- Behind the events the compaction leaves every slot as it is. -/
theorem pending_compact (k : Kernel) : ∀ i, (compactPendingEvents k).pendingCount ≤ i →
    (compactPendingEvents k).pending i = k.pending i := by
  unfold compactPendingEvents
  dsimp only
  refine List.foldlRecOn (motive := fun s : (ℕ → PendingEvent) × ℕ =>
    ∀ i, s.2 ≤ i → s.1 i = k.pending i) _ _ (fun _ _ => rfl) fun s hs read _ => ?_
  split_ifs
  · intro i hi
    dsimp only at hi ⊢
    rw [Function.update_of_ne (by omega)]
    exact hs i (by omega)
  · exact fun i hi => hs i ((Nat.le_succ _).trans hi)
  · exact hs

/-- Below the new count it leaves the events. -/
theorem compact_mem (k : Kernel) {i : ℕ} (hi : i < (compactPendingEvents k).pendingCount) :
    (compactPendingEvents k).pending i ∈ k.events := by
  have hmap : (List.range (compactPendingEvents k).pendingCount).map (compactPendingEvents k).pending =
      k.events := (compact_foldl k.pending k.pendingCount).2.2
  rw [← hmap]
  exact List.mem_map_of_mem (List.mem_range.mpr hi)

theorem length_compact (k : Kernel) : (compactPendingEvents k).pendingCount = k.events.length := by
  have hmap : (List.range (compactPendingEvents k).pendingCount).map (compactPendingEvents k).pending =
      k.events := (compact_foldl k.pending k.pendingCount).2.2
  rw [← hmap, List.length_map, List.length_range]

theorem stored_compact (hs : (compactPendingEvents k).Stored e) : k.Stored e := by
  obtain ⟨ha, i, rfl⟩ := hs
  rcases lt_or_ge i (compactPendingEvents k).pendingCount with hi | hi
  · exact stored_of_mem (compact_mem k hi)
  · exact ⟨ha, i, (pending_compact k i hi).symm⟩

/-- The slots as binary digits. -/
def slotsValue (k : Kernel) : ℕ := Odometer.value (fun i => (k.pending i).active) maxPending

theorem stored_completeIoEvents (hs : (completeIoEvents k).Stored e) : k.Stored e := by
  obtain ⟨ha, i, rfl⟩ := hs
  rw [(completed_completeIoEvents k).pending] at ha ⊢
  dsimp only at ha ⊢
  split_ifs at ha ⊢
  exact ⟨ha, i, rfl⟩

/-! ## A write -/

theorem pending_executeIoWrite (k : Kernel) (c : ℕ) : ∃ k₁, k₁.pending = k.pending ∧
    k₁.pendingCount = k.pendingCount ∧ k₁.currentTick = k.currentTick ∧
      executeIoWrite k c = registerIo k₁ (k.tcb c).ownerPid (logPath (k.tcb c).ownerPid k.ioSeq) := by
  obtain ⟨k₁, fs, hs, he⟩ := executeIoWrite_eq k c
  exact ⟨k₁, hs.pending, hs.pendingCount, hs.currentTick, he⟩

theorem freeSlot_eq_none : freeSlot k = none ↔ ∀ i < maxPending, (k.pending i).active = true := by
  simp [freeSlot, List.find?_eq_none]

theorem executeIoWrite_full {c : ℕ} (hs : freeSlot k = none) :
    (executeIoWrite k c).pending = k.pending ∧
      (executeIoWrite k c).pendingCount = k.pendingCount := by
  obtain ⟨k₁, hp, hn, -, he⟩ := pending_executeIoWrite k c
  have hfree : freeSlot k₁ = none := by rw [freeSlot, hp, ← freeSlot, hs]
  rw [he, registerIo_none hfree]
  exact ⟨hp, hn⟩

theorem executeIoWrite_slot {c slot : ℕ} (hs : freeSlot k = some slot) :
    (executeIoWrite k c).pending = Function.update k.pending slot
        (ioEvent k slot (k.tcb c).ownerPid (logPath (k.tcb c).ownerPid k.ioSeq)) ∧
      (executeIoWrite k c).pendingCount = max k.pendingCount (slot + 1) := by
  obtain ⟨k₁, hp, hn, htick, he⟩ := pending_executeIoWrite k c
  have hfree : freeSlot k₁ = some slot := by rw [freeSlot, hp, ← freeSlot, hs]
  rw [freeSlot] at hfree
  have hevent : ∀ pid path, ioEvent k₁ slot pid path = ioEvent k slot pid path := by
    intro pid path
    rw [ioEvent, hp, htick, ioEvent]
  rw [he, registerIo, hfree]
  dsimp only
  split_ifs with hle
  · have hle : k₁.pendingCount ≤ slot := hle
    refine ⟨by rw [← hevent, ← hp]; rfl, ?_⟩
    change slot + 1 = _
    omega
  · have hle : ¬k₁.pendingCount ≤ slot := hle
    refine ⟨by rw [← hevent, ← hp]; rfl, ?_⟩
    change k₁.pendingCount = _
    omega

/-- Between the write of a thread and the events of the next tick : the new event is in a slot. -/
structure Registered (k k' : Kernel) (slot : ℕ) (new : PendingEvent) : Prop where
  free : freeSlot k = some slot
  active : new.active = true
  pending : k'.pending = Function.update k.pending slot new
  pendingCount : k'.pendingCount = max k.pendingCount (slot + 1)
  currentTick : k'.currentTick = k.currentTick + 1

namespace Registered

variable {slot : ℕ} {new : PendingEvent} (hr : Registered k k' slot new)
include hr

theorem slot_free : slot < maxPending ∧ (k.pending slot).active = false ∧
    ∀ i < slot, (k.pending i).active = true := by
  obtain ⟨ha, hi, hbefore⟩ := List.find?_range_eq_some.mp hr.free
  exact ⟨List.mem_range.mp hi, by simpa using ha, fun i hi => by simpa using hbefore i hi⟩

theorem stored (he : k'.Stored e) : e = new ∨ k.Stored e := by
  obtain ⟨ha, i, rfl⟩ := he
  rw [hr.pending] at ha ⊢
  by_cases hi : i = slot
  · rw [hi, Function.update_self]
    exact Or.inl rfl
  · rw [Function.update_of_ne hi] at ha ⊢
    exact Or.inr ⟨ha, i, rfl⟩

theorem mem_new : new ∈ k'.events := by
  refine mem_events.mpr ⟨slot, ?_, ?_, hr.active⟩
  · rw [hr.pendingCount]
    omega
  · rw [hr.pending, Function.update_self]

theorem mem_old (he : e ∈ k.events) : e ∈ k'.events := by
  obtain ⟨i, hi, rfl, ha⟩ := mem_events.mp he
  have hne : i ≠ slot := by
    rintro rfl
    rw [hr.slot_free.2.1] at ha
    cases ha
  refine mem_events.mpr ⟨i, ?_, ?_, ha⟩
  · rw [hr.pendingCount]
    omega
  · rw [hr.pending, Function.update_of_ne hne]

/-- Behind the new event nothing changes until the next write, and if two events are left then the
slots have become a larger number. -/
theorem value_advances {w : ℕ} (hnew : new.dueAt k'.currentTick .ioBlock = false)
    (hcount : ∀ i < k.pendingCount, (k.pending i).active = true) (hw : w ≤ k.pendingCount)
    (hw' : w ≤ (compactPendingEvents (completeIoEvents k')).events.length) :
    slotsValue k + 2 ^ w ≤ slotsValue (compactPendingEvents (completeIoEvents k')) := by
  obtain ⟨hlt, hfree, -⟩ := hr.slot_free
  have hle : k.pendingCount ≤ slot := by
    by_contra hlt
    rw [hcount slot (not_le.mp hlt)] at hfree
    cases hfree
  have hn : k'.pendingCount = slot + 1 := by
    rw [hr.pendingCount]
    omega
  have hdone := completed_completeIoEvents k'
  set k₁ := completeIoEvents k'
  have hlen : (compactPendingEvents k₁).pendingCount = k₁.events.length := length_compact k₁
  rw [events_compactPendingEvents] at hw'
  have hshort : (compactPendingEvents k₁).pendingCount ≤ slot + 1 := by
    rw [← hn, ← hdone.pendingCount]
    exact (compact_foldl k₁.pending k₁.pendingCount).1
  have hactive : ∀ i < (compactPendingEvents k₁).pendingCount,
      ((compactPendingEvents k₁).pending i).active = true :=
    fun i hi => (stored_of_mem (compact_mem k₁ hi)).active
  -- a slot that is not due is left as it is
  have hkept : ∀ i, (i < k'.pendingCount → k'.due .ioBlock i = false) →
      k₁.pending i = k'.pending i := by
    intro i hi
    rw [hdone.pending]
    dsimp only
    rw [if_neg]
    rintro ⟨hmem, hdue⟩
    rw [hi (List.mem_range.mp hmem)] at hdue
    cases hdue
  have hself : k'.pending slot = new := by rw [hr.pending, Function.update_self]
  have hslot : (k₁.pending slot).active = true := by
    rw [hkept slot fun _ => ?_, hself, hr.active]
    rw [Kernel.due, hself, decide_eq_false_iff_not]
    rw [PendingEvent.dueAt, decide_eq_false_iff_not] at hnew
    exact fun hd => hnew hd.2
  refine Odometer.value_advance hlt hfree ?_ (fun i hi => ?_) (hw.trans hle) fun i hi => ?_
  · rcases lt_or_ge slot (compactPendingEvents k₁).pendingCount with hs | hs
    · exact hactive slot hs
    · rw [pending_compact k₁ slot hs]
      exact hslot
  · exact hactive i (by omega)
  · rw [pending_compact k₁ i (by omega), hkept i fun hlt => by omega, hr.pending,
      Function.update_of_ne (by omega)]

end Registered

end FleetOS
