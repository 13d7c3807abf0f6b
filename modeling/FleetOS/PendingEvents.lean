import FleetOS.KernelGraph
import Mathlib.Data.List.Perm.Basic

/-!
# The pending events

`Kernel.events` lists the active events below `pending_count`, in the order of the array.
Compacting keeps this list, a completion or a cancellation filters it, and a registration adds
one event to it up to order; but a registration of an I/O event in a slot behind
`pending_count` also brings back what is left in the slots before (`events_registerIo`).

`events_machineStep` puts this together for a part of a tick.
-/

namespace FleetOS

/-! ## Slots that are picked by a test -/

section Slots

variable {α : Type*} {P : α → Bool} {f : ℕ → α} {l : List ℕ} {i : ℕ}

theorem map_update_of_not_mem (h : i ∉ l) (a : α) : l.map (Function.update f i a) = l.map f :=
  List.map_congr_left fun _ hj => Function.update_of_ne (ne_of_mem_of_not_mem hj h) a f

/-- A slot that passes the test is filled. -/
theorem filter_map_update (ha : P (f i) = false) {a : α} (hP : P a = true) :
    ∀ {l : List ℕ}, l.Nodup → i ∈ l →
      ((l.map (Function.update f i a)).filter P).Perm (a :: (l.map f).filter P)
  | [], _, hi => absurd hi List.not_mem_nil
  | j :: l, hnd, hi => by
    obtain ⟨hj, hnd⟩ := List.nodup_cons.mp hnd
    by_cases hij : i = j
    · subst hij
      rw [List.map_cons, List.map_cons, map_update_of_not_mem hj, Function.update_self,
        List.filter_cons_of_pos hP, List.filter_cons_of_neg (by simp [ha])]
    · have ih := filter_map_update ha hP hnd ((List.mem_cons.mp hi).resolve_left hij)
      rw [List.map_cons, List.map_cons, Function.update_of_ne (Ne.symm hij)]
      cases hf : P (f j) with
      | true =>
        rw [List.filter_cons_of_pos hf, List.filter_cons_of_pos hf]
        exact (ih.cons _).trans (List.Perm.swap _ _ _)
      | false =>
        rw [List.filter_cons_of_neg (by simp [hf]), List.filter_cons_of_neg (by simp [hf])]
        exact ih

end Slots

/-- The active events below `pending_count`. -/
def Kernel.events (k : Kernel) : List PendingEvent :=
  ((List.range k.pendingCount).map k.pending).filter fun e => e.active

theorem events_congr {k k' : Kernel} (hp : k'.pending = k.pending)
    (hc : k'.pendingCount = k.pendingCount) : k'.events = k.events := by
  rw [Kernel.events, hp, hc, Kernel.events]

theorem mem_events {k : Kernel} {e : PendingEvent} :
    e ∈ k.events ↔ ∃ i < k.pendingCount, k.pending i = e ∧ e.active = true := by
  simp only [Kernel.events, List.mem_filter, List.mem_map, List.mem_range]
  constructor
  · rintro ⟨⟨i, hi, he⟩, ha⟩
    exact ⟨i, hi, he, ha⟩
  · rintro ⟨i, hi, he, ha⟩
    exact ⟨⟨i, hi, he⟩, ha⟩

/-- Events that fail a test are made inactive. -/
theorem events_filter {k k' : Kernel} (P : PendingEvent → Bool)
    (hc : k'.pendingCount = k.pendingCount)
    (hp : ∀ i < k.pendingCount, k'.pending i = if (k.pending i).active ∧ P (k.pending i) = false
      then { k.pending i with active := false } else k.pending i) :
    k'.events = k.events.filter P := by
  unfold Kernel.events
  rw [hc, List.filter_filter, List.filter_map, List.filter_map]
  have hfilter : (List.range k.pendingCount).filter ((fun e => e.active) ∘ k'.pending) =
      (List.range k.pendingCount).filter ((fun e => P e && e.active) ∘ k.pending) := by
    refine List.filter_congr fun i hi => ?_
    simp only [Function.comp_apply, hp i (List.mem_range.mp hi)]
    split_ifs with h
    · simp [h.2]
    · cases ha : (k.pending i).active with
      | false => simp
      | true =>
        have hP : P (k.pending i) = true := by
          by_contra hP
          exact h ⟨ha, eq_false_of_ne_true hP⟩
        simp [hP]
  rw [hfilter]
  refine List.map_congr_left fun i hi => ?_
  obtain ⟨hi, hPa⟩ := List.mem_filter.mp hi
  rw [hp i (List.mem_range.mp hi), if_neg]
  rintro ⟨-, hP⟩
  simp [hP] at hPa

/-! ## The operations -/

theorem events_cancelPending (k : Kernel) (pid : ℤ) :
    (cancelPending k pid).events = k.events.filter fun e => e.pid ≠ pid := by
  refine events_filter _ rfl fun i hi => ?_
  simp only [cancelPending, hi, true_and, ne_eq, decide_not, Bool.not_eq_false', decide_eq_true_eq]

/-- Whether the time of an event for `reason` has come. -/
def PendingEvent.dueAt (tick : ℤ) (reason : BlockReason) (e : PendingEvent) : Bool :=
  e.reason = reason ∧ e.completionTick ≤ tick

/-- The event a thread is blocked for is active and due. -/
theorem Kernel.Awaits.event {k : Kernel} {reason : BlockReason} {i t : ℕ}
    (h : k.Awaits reason i t) (hi : i < k.pendingCount) :
    k.pending i ∈ k.events ∧ (k.pending i).dueAt k.currentTick reason = true := by
  have hdue := h.due
  rw [Kernel.due, decide_eq_true_eq] at hdue
  refine ⟨mem_events.mpr ⟨i, hi, rfl, hdue.1⟩, ?_⟩
  rw [PendingEvent.dueAt, decide_eq_true_eq]
  exact hdue.2

theorem events_completed {reason : BlockReason} {k k' : Kernel}
    (h : CompletedAll reason (List.range k.pendingCount) k k') :
    k'.events = k.events.filter fun e => !e.dueAt k.currentTick reason := by
  refine events_filter _ h.pendingCount fun i hi => ?_
  rw [h.pending]
  simp only [List.mem_range, hi, true_and, Kernel.due, PendingEvent.dueAt, Bool.not_eq_false',
    decide_eq_true_eq]

/-- The loop of the compaction, after the slots below `r`. -/
theorem compact_foldl (f : ℕ → PendingEvent) : ∀ r : ℕ,
    let s := (List.range r).foldl
      (fun (s : (ℕ → PendingEvent) × ℕ) read =>
        if (s.1 read).active then
          (if s.2 ≠ read then Function.update s.1 s.2 (s.1 read) else s.1, s.2 + 1)
        else s) (f, 0)
    s.2 ≤ r ∧ (∀ i, r ≤ i → s.1 i = f i) ∧
      (List.range s.2).map s.1 = ((List.range r).map f).filter fun e => e.active
  | 0 => ⟨le_rfl, fun _ _ => rfl, rfl⟩
  | r + 1 => by
    obtain ⟨hle, hrest, hmap⟩ := compact_foldl f r
    intro s
    set s₀ := (List.range r).foldl
      (fun (s : (ℕ → PendingEvent) × ℕ) read =>
        if (s.1 read).active then
          (if s.2 ≠ read then Function.update s.1 s.2 (s.1 read) else s.1, s.2 + 1)
        else s) (f, 0) with hs₀
    have hs : s = if (s₀.1 r).active then
        (if s₀.2 ≠ r then Function.update s₀.1 s₀.2 (s₀.1 r) else s₀.1, s₀.2 + 1) else s₀ := by
      change (List.range (r + 1)).foldl _ (f, 0) = _
      rw [List.range_succ, List.foldl_append, List.foldl_cons, List.foldl_nil]
    have hr : s₀.1 r = f r := hrest r le_rfl
    rw [List.range_succ, List.map_append, List.filter_append, ← hmap]
    by_cases ha : (s₀.1 r).active = true
    · rw [hs, if_pos ha]
      -- both branches write the event of slot `r` to the end of the compacted part
      have hself : (if s₀.2 ≠ r then Function.update s₀.1 s₀.2 (s₀.1 r) else s₀.1) =
          Function.update s₀.1 s₀.2 (s₀.1 r) := by
        split_ifs with hne
        · rfl
        · rw [not_not.mp hne, Function.update_eq_self]
      rw [hself]
      refine ⟨by dsimp only; omega, fun i hi => ?_, ?_⟩
      · dsimp only
        rw [Function.update_of_ne (by omega)]
        exact hrest i (by omega)
      · dsimp only
        rw [List.range_succ, List.map_append, map_update_of_not_mem (by simp), List.map_singleton,
          List.map_singleton, Function.update_self, ← hr, List.filter_singleton, ha]
        rfl
    · rw [hs, if_neg ha]
      refine ⟨by omega, fun i hi => hrest i (by omega), ?_⟩
      rw [List.map_singleton, ← hr, List.filter_singleton, eq_false_of_ne_true ha]
      simp

theorem events_compactPendingEvents (k : Kernel) : (compactPendingEvents k).events = k.events := by
  obtain ⟨-, -, hmap⟩ := compact_foldl k.pending k.pendingCount
  have he : (List.range (compactPendingEvents k).pendingCount).map (compactPendingEvents k).pending =
      k.events := hmap
  rw [Kernel.events, he, Kernel.events, List.filter_filter]
  simp only [Bool.and_self]

/-- The event of a page fault. -/
def faultEvent (k : Kernel) (slot : ℕ) (pid page : ℤ) : PendingEvent :=
  { k.pending slot with
    pid := pid
    completionTick := k.currentTick + pageFaultDuration
    reason := .pageFault
    page := page
    active := true }

/-- The slot that it takes. -/
def faultSlot (k : Kernel) : Option ℕ :=
  ((List.range k.pendingCount).find? fun i => !(k.pending i).active).or
    (if k.pendingCount < maxPending then some k.pendingCount else none)

theorem registerPageFault_none {k : Kernel} (h : faultSlot k = none) (pid page : ℤ) :
    registerPageFault k pid page = k := by
  rw [faultSlot, Option.or_eq_none_iff] at h
  obtain ⟨hfind, hfull⟩ := h
  rw [registerPageFault, hfind]
  exact if_neg fun hlt => by simp [hlt] at hfull

theorem events_registerPageFault {k : Kernel} {slot : ℕ} (h : faultSlot k = some slot)
    (pid page : ℤ) :
    (registerPageFault k pid page).events.Perm (faultEvent k slot pid page :: k.events) := by
  unfold faultSlot at h
  unfold registerPageFault
  dsimp only
  cases hfind : (List.range k.pendingCount).find? fun i => !(k.pending i).active with
  | some i =>
    rw [hfind, Option.some_or, Option.some.injEq] at h
    obtain ⟨ha, hi, -⟩ := List.find?_range_eq_some.mp hfind
    subst h
    exact filter_map_update (P := PendingEvent.active) (by simpa using ha) rfl List.nodup_range hi
  | none =>
    rw [hfind, Option.none_or] at h
    split_ifs at h ⊢
    rw [← Option.some.inj h]
    unfold Kernel.events Kernel.setPending
    dsimp only
    rw [List.range_succ, List.map_append, map_update_of_not_mem (by simp), List.map_singleton,
      Function.update_self, List.filter_append, List.filter_singleton]
    exact List.perm_append_comm

/-- The slot that an I/O event takes. -/
def freeSlot (k : Kernel) : Option ℕ :=
  (List.range maxPending).find? fun i => !(k.pending i).active

/-- What the slots from `pending_count` up to a free slot hold. -/
def staleEvents (k : Kernel) (slot : ℕ) : List PendingEvent :=
  (List.range' k.pendingCount (slot - k.pendingCount)).map k.pending

/-- The event of an I/O write. -/
def ioEvent (k : Kernel) (slot : ℕ) (pid : ℤ) (path : CString) : PendingEvent :=
  { k.pending slot with
    pid := pid
    completionTick := k.currentTick + ioDuration
    reason := .ioBlock
    path := path.take 63
    active := true }

theorem registerIo_none {k : Kernel} (h : freeSlot k = none) (pid : ℤ) (path : CString) :
    registerIo k pid path = k := by
  rw [freeSlot] at h
  rw [registerIo, h]

theorem events_registerIo {k : Kernel} {slot : ℕ} (h : freeSlot k = some slot) (pid : ℤ)
    (path : CString) :
    (registerIo k pid path).events.Perm
      (ioEvent k slot pid path :: (k.events ++ staleEvents k slot)) := by
  obtain ⟨ha, -, hbefore⟩ := List.find?_range_eq_some.mp h
  have ha : (k.pending slot).active = false := by simpa using ha
  have hreg : registerIo k pid path =
      if (k.setPending slot fun _ => ioEvent k slot pid path).pendingCount ≤ slot then
        { k.setPending slot fun _ => ioEvent k slot pid path with pendingCount := slot + 1 }
      else k.setPending slot fun _ => ioEvent k slot pid path := by
    rw [freeSlot] at h
    rw [registerIo, h]
    rfl
  rw [hreg]
  split_ifs with hle
  · have hle : k.pendingCount ≤ slot := hle
    have hrange : List.range (slot + 1) =
        List.range k.pendingCount ++ List.range' k.pendingCount (slot - k.pendingCount) ++ [slot] := by
      have happ : List.range' 0 k.pendingCount ++
          List.range' (0 + k.pendingCount) (slot - k.pendingCount) = _ := List.range'_append_1
      rw [Nat.zero_add, Nat.add_sub_cancel' hle] at happ
      rw [List.range_succ, List.range_eq_range', List.range_eq_range', happ]
    have hstale : ∀ e ∈ staleEvents k slot, e.active = true := by
      intro e he
      obtain ⟨i, hi, rfl⟩ := List.mem_map.mp he
      rw [List.mem_range'_1] at hi
      have := hbefore i (by omega)
      simpa using this
    unfold Kernel.events Kernel.setPending
    dsimp only
    rw [hrange, List.map_append, List.map_append, map_update_of_not_mem (by simp; omega),
      map_update_of_not_mem (by simp; omega), List.map_singleton, Function.update_self,
      List.filter_append, List.filter_append, List.filter_singleton]
    have hs : ((List.range' k.pendingCount (slot - k.pendingCount)).map k.pending).filter
        (fun e => e.active) = staleEvents k slot := List.filter_eq_self.mpr hstale
    rw [hs]
    exact List.perm_append_comm
  · have hlt : slot < k.pendingCount := not_le.mp hle
    have hempty : staleEvents k slot = [] := by
      simp [staleEvents, Nat.sub_eq_zero_of_le hlt.le]
    rw [hempty, List.append_nil]
    exact filter_map_update (P := PendingEvent.active) ha (a := ioEvent k slot pid path) rfl
      List.nodup_range (List.mem_range.mpr hlt)

/-! ## Runs -/

/-- The thread that starts an I/O write in this part of a tick. -/
def ioWritingAt : Kernel × Phase → Option ℕ
  | (k, .execute) => k.runningThread.filter fun t => threadCurrentCommand (k.tcb t) = .ioWrite
  | _ => none

/-- The thread that may fault in this part of a tick. -/
def faultingAt : Kernel × Phase → Option ℕ
  | (k, .pageFault) => k.runningThread.filter fun _ =>
      !k.config.deadlockEnabled ∧ 0 < k.currentTick ∧ k.currentTick % pageFaultInterval = 0
  | _ => none

/-- What a part of a tick does to the events. -/
inductive EventStep (m : Kernel × Phase) (l : List PendingEvent) : Prop
  | same (he : endingAt m = none) (hp : m.2 ≠ .ioEvents) (hp' : m.2 ≠ .pageFaults)
      (hw : ioWritingAt m = none ∨ freeSlot m.1 = none) (h : l = m.1.events)
  | ended (p : ℕ) (he : endingAt m = some p)
      (h : l = m.1.events.filter fun e => e.pid ≠ (m.1.procs p).pid)
  | completed (reason : BlockReason) (hp : CompletesFor m.2 reason)
      (h : l = m.1.events.filter fun e => !e.dueAt m.1.currentTick reason)
  | faulted (t slot : ℕ) (page : ℤ) (hf : faultingAt m = some t) (hs : faultSlot m.1 = some slot)
      (h : l.Perm (faultEvent m.1 slot (m.1.tcb t).ownerPid page :: m.1.events))
  | registered (t slot : ℕ) (hw : ioWritingAt m = some t) (hs : freeSlot m.1 = some slot)
      (h : l.Perm (ioEvent m.1 slot (m.1.tcb t).ownerPid (logPath (m.1.tcb t).ownerPid m.1.ioSeq) ::
        (m.1.events ++ staleEvents m.1 slot)))

theorem Steady.events {k k' : Kernel} (h : Steady k k') : k'.events = k.events :=
  events_congr h.pending h.pendingCount

/-- A command that is not an I/O write keeps the events. -/
theorem events_executeCommand {k : Kernel} {t : ℕ}
    (h : threadCurrentCommand (k.tcb t) ≠ .ioWrite) : (executeCommand k t).events = k.events := by
  unfold executeCommand
  cases hc : threadCurrentCommand (k.tcb t) with
  | compute => rfl
  | produceData => exact (steady_executeProduce k t).events
  | consumeData => exact (steady_executeConsume k t).events
  | acquireResource => exact (steady_executeAcquire k t).events
  | ioWrite => exact absurd hc h

theorem eventStep_executeIoWrite {k : Kernel} {t : ℕ} (hrun : k.runningThread = some t)
    (hc : threadCurrentCommand (k.tcb t) = .ioWrite) :
    EventStep (k, .execute) (executeIoWrite k t).events := by
  obtain ⟨k₁, fs, hs, he⟩ := executeIoWrite_eq k t
  have hw : ioWritingAt (k, .execute) = some t := by
    simp only [ioWritingAt, hrun, Option.filter_some, hc, decide_true, if_true]
  have hp : k₁.pending = k.pending := hs.pending
  have hn : k₁.pendingCount = k.pendingCount := hs.pendingCount
  have htick : k₁.currentTick = k.currentTick := hs.currentTick
  have hevents : k₁.events = k.events := events_congr hp hn
  have hfree : freeSlot k₁ = freeSlot k := by rw [freeSlot, hp, freeSlot]
  rw [he]
  cases hslot : freeSlot k with
  | none =>
    rw [registerIo_none (hfree.trans hslot)]
    exact .same rfl (by simp) (by simp) (Or.inr hslot) hevents
  | some slot =>
    have hreg := events_registerIo (hfree.trans hslot) (k.tcb t).ownerPid
      (logPath (k.tcb t).ownerPid k.ioSeq)
    refine .registered t slot hw hslot ?_
    simp only [ioEvent, staleEvents, hp, hn, htick, hevents] at hreg ⊢
    exact hreg

theorem eventStep_triggerPageFault (k : Kernel) :
    EventStep (k, .pageFault) (triggerPageFault k).events := by
  have hsame : ∀ {l : List PendingEvent}, l = k.events → EventStep (k, .pageFault) l :=
    fun hl => .same rfl (by simp) (by simp) (Or.inl rfl) hl
  rcases triggerPageFault_cases k with
    ⟨pcb, addr, hx⟩ | hx | ⟨t, p, pcb, addr, page, hrun, hp, hd, htick, hmod, hx⟩
  · exact hsame (by rw [hx]; rfl)
  · exact hsame (by rw [hx])
  · have hs := steady_blockThread { k with mem := (memAccess k.mem pcb addr).mem } t .pageFault
    set k₁ := blockThread { k with mem := (memAccess k.mem pcb addr).mem } t .pageFault with hk₁
    have hpend : k₁.pending = k.pending := hs.pending
    have hn : k₁.pendingCount = k.pendingCount := hs.pendingCount
    have htick₁ : k₁.currentTick = k.currentTick := hs.currentTick
    have hevents : k₁.events = k.events := events_congr hpend hn
    have hslot₁ : faultSlot k₁ = faultSlot k := by rw [faultSlot, hpend, hn, faultSlot]
    have hf : faultingAt (k, .pageFault) = some t := by
      simp [faultingAt, hrun, hd, htick, hmod]
    rw [hx, (findProc_some hp).2]
    cases hslot : faultSlot k with
    | none =>
      rw [registerPageFault_none (hslot₁.trans hslot)]
      exact hsame hevents
    | some slot =>
      have hreg := events_registerPageFault (hslot₁.trans hslot) (k.tcb t).ownerPid page
      refine .faulted t slot page hf hslot ?_
      simp only [faultEvent, hpend, htick₁, hevents] at hreg ⊢
      exact hreg

theorem events_machineStep {m : Kernel × Phase} (h : MachineTables m) :
    EventStep m (machineStep m).1.events := by
  cases he : endingAt m with
  | some p =>
    obtain ⟨-, hc, -⟩ := cleanedUp_machineStep h he
    refine .ended p he ?_
    rw [events_congr (k := cancelPending m.1 (m.1.procs p).pid) hc.pending hc.pendingCount,
      events_cancelPending]
  | none =>
  cases hb : m.2.busy with
  | false =>
    have hq := quiet_machineStep h he hb
    obtain ⟨k, ph⟩ := m
    refine .same he ?_ ?_ (Or.inl ?_) (events_congr hq.pending hq.pendingCount) <;>
      cases ph <;> simp_all [Phase.busy, ioWritingAt]
  | true =>
  obtain ⟨k, ph⟩ := m
  cases ph with
  | ioEvents =>
    exact .completed .ioBlock (Or.inl ⟨rfl, rfl⟩) (events_completed (completed_completeIoEvents k))
  | pageFaults =>
    exact .completed .pageFault (Or.inr ⟨rfl, rfl⟩)
      (events_completed (completed_completePageFaults k))
  | compact => exact .same he (by simp) (by simp) (Or.inl rfl) (events_compactPendingEvents k)
  | execute =>
    cases hrun : k.runningThread with
    | none =>
      refine .same he (by simp) (by simp) (Or.inl ?_) ?_
      · simp only [ioWritingAt, hrun, Option.filter_none]
      · simp only [machineStep, hrun]
    | some t =>
      simp only [machineStep, hrun]
      by_cases hc : threadCurrentCommand (k.tcb t) = .ioWrite
      · have hx : executeCommand k t = executeIoWrite k t := by rw [executeCommand, hc]
        rw [hx]
        exact eventStep_executeIoWrite hrun hc
      · refine .same he (by simp) (by simp) (Or.inl ?_) (events_executeCommand hc)
        simp only [ioWritingAt, hrun, Option.filter_some, hc, decide_false, Bool.false_eq_true,
          if_false]
  | pageFault => exact eventStep_triggerPageFault k
  | wakeWaiters =>
    exact .same he (by simp) (by simp) (Or.inl rfl) (drained_wakeBufferWaiters k).steady.events
  | _ => cases hb

end FleetOS
