import FleetOS.EventSlots
import FleetOS.KernelBuffer
import FleetOS.QuietTicks
import FleetOS.SlotCopies

/-!
# The slots run out

Five processes with one thread each that does nothing but write (`fiveWriters`) go on for ever : in
every tick one thread writes, its event is due three ticks later, and at most two others are
blocked (`two_ready`). Each write makes the number of the active slots larger by `4` at least
(`value_tick`). So after at most `2 ^ 30 + 2` ticks no slot is free, and the thread that writes then
is blocked without an event (`blocked_without_event`).
-/

namespace FleetOS

variable {k k' : Kernel} {e : PendingEvent} {c h t : ℕ}

/-! ## Five writers -/

/-- Five processes with one thread each that only writes. -/
def fiveWriters : List ProcessSpec :=
  (List.range 5).map fun i => ⟨i, [], .normal, [], 0, 0, [⟨i, [.ioWrite], 10⟩]⟩

/-- The threads at any time : each is ready and queued, runs, or is blocked for its event. -/
structure Writers (k : Kernel) : Prop where
  tables : Tables k
  undisturbed : Undisturbed k
  threadCount : k.threadCount = 5
  owner : ∀ t < 5, (k.tcb t).ownerPid = t
  commands : ∀ t < 5, (k.tcb t).commands = [.ioWrite] ∧ (k.tcb t).commandCount = 1
  settled : k.sched.Settled 5 (Set.Iio 5)
  reason : ∀ t < 5, (k.tcb t).state = .blocked → (k.tcb t).waitReason = .ioBlock
  live : ∀ t < 5, (k.tcb t).state ≠ .done

/-- Where a command is executed : thread `c` runs, and `h` is the first in the queue. -/
structure Slots (k : Kernel) (c h : ℕ) : Prop where
  kind : ∀ e, k.Stored e → e.reason = .ioBlock ∧ e.completionTick ≤ k.currentTick + 2
  apart : ∀ e e', k.Stored e → k.Stored e' → e.completionTick = e'.completionTick → e.pid = e'.pid
  live : ∀ i < k.pendingCount, (k.pending i).active = true ∧
    k.currentTick < (k.pending i).completionTick
  current : ∀ e, k.Stored e → e.pid = c → e.completionTick ≤ k.currentTick
  next : ∀ e, k.Stored e → e.pid = h → e.completionTick ≤ k.currentTick + 1
  waited : ∀ t < 5, (k.tcb t).state = .blocked → ∃ e ∈ k.events, e.pid = t
  last : 0 < k.currentTick → ∃ e ∈ k.events, e.completionTick = k.currentTick + 2
  before : 1 < k.currentTick → ∃ e ∈ k.events, e.completionTick = k.currentTick + 1

theorem Slots.events_live (hs : Slots k c h) (he : e ∈ k.events) :
    k.currentTick < e.completionTick := by
  obtain ⟨i, hi, rfl, -⟩ := mem_events.mp he
  exact (hs.live i hi).2

/-- At most two threads are blocked, so two are queued. -/
theorem two_ready (hw : Writers k) (hrun : k.runningThread = some c) (hs : Slots k c h) :
    ∃ h h' rest, k.sched.rr.toList = h :: h' :: rest := by
  set q := k.sched.rr.toList with hq
  have hqueued : k.sched.queued = q := Scheduler.queued_rr hw.undisturbed.mode
  set blocked := (Finset.range 5).filter fun t => (k.tcb t).state = .blocked with hblocked
  have hall : Finset.range 5 ⊆ insert c (q.toFinset ∪ blocked) := by
    intro t ht
    have ht5 := Finset.mem_range.mp ht
    rw [Finset.mem_insert, Finset.mem_union, List.mem_toFinset, hblocked, Finset.mem_filter]
    cases hst : (k.tcb t).state with
    | ready =>
      have hmem := hw.settled.mem_queued t ht5 hst
      rw [hqueued, Multiset.mem_coe] at hmem
      exact Or.inr (Or.inl hmem)
    | running =>
      have hcur := (hw.settled.running t ht5 hst).1
      exact Or.inl (Option.some.inj (hcur.symm.trans (runningThread_some hrun).1))
    | blocked => exact Or.inr (Or.inr ⟨ht, rfl⟩)
    | done => exact absurd hst (hw.live t ht5)
  have htwo : blocked.card ≤ 2 := by
    have hev : ∀ t ∈ blocked, ∃ e ∈ k.events, e.pid = t := by
      intro t ht
      obtain ⟨ht, hb⟩ := Finset.mem_filter.mp ht
      exact hs.waited t (Finset.mem_range.mp ht) hb
    have : Nonempty PendingEvent := ⟨k.pending 0⟩
    choose! event hmem hpid using hev
    have hmaps : ∀ t ∈ blocked, (event t).completionTick ∈
        ({k.currentTick + 1, k.currentTick + 2} : Finset ℤ) := by
      intro t ht
      have hlow := hs.events_live (hmem t ht)
      have hhigh := (hs.kind _ (stored_of_mem (hmem t ht))).2
      rw [Finset.mem_insert, Finset.mem_singleton]
      omega
    have hinj : Set.InjOn (fun t => (event t).completionTick) blocked := by
      intro t ht u hu htu
      have hsame := hs.apart _ _ (stored_of_mem (hmem t ht)) (stored_of_mem (hmem u hu)) htu
      rw [hpid t ht, hpid u hu] at hsame
      exact_mod_cast hsame
    exact (Finset.card_le_card_of_injOn _ hmaps hinj).trans Finset.card_le_two
  have hcard : 5 ≤ 1 + (q.length + 2) := by
    calc 5 = (Finset.range 5).card := rfl
      _ ≤ (insert c (q.toFinset ∪ blocked)).card := Finset.card_le_card hall
      _ ≤ (q.toFinset ∪ blocked).card + 1 := Finset.card_insert_le _ _
      _ ≤ q.toFinset.card + blocked.card + 1 := Nat.add_le_add_right (Finset.card_union_le _ _) 1
      _ ≤ 1 + (q.length + 2) := by have := q.toFinset_card_le; omega
  match q, hcard with
  | h :: h' :: rest, _ => exact ⟨h, h', rest, rfl⟩

theorem Writers.command (hw : Writers k) (ht : t < 5) :
    threadCurrentCommand (k.tcb t) = .ioWrite := by
  obtain ⟨hc, hn⟩ := hw.commands t ht
  simp [threadCurrentCommand, hc, hn]

/-- What is fixed in the threads. -/
theorem Writers.ids (hw : Writers k) (hid : ∀ u, (k'.tcb u).ident = (k.tcb u).ident) (t : ℕ)
    (ht : t < 5) : (k'.tcb t).ownerPid = t ∧ (k'.tcb t).commands = [.ioWrite] ∧
      (k'.tcb t).commandCount = 1 := by
  obtain ⟨-, howner, hcmds, hcount, -⟩ := by simpa only [TCB.ident, Prod.mk.injEq] using hid t
  exact ⟨howner.trans (hw.owner t ht), hcmds.trans (hw.commands t ht).1,
    hcount.trans (hw.commands t ht).2⟩

theorem Writers.of_still (hw : Writers k) (hs : Still k k') (ht : Tables k') : Writers k' := by
  have htcb : ∀ t, k'.tcb t = k.tcb t := fun t => congrFun hs.tcb t
  refine ⟨ht, hw.undisturbed.of_still hs, hs.threadCount.trans hw.threadCount, fun t => ?_,
    fun t => ?_, hw.settled.congr hs.tcb hs.rr hs.mlfq hs.current hs.mode hs.currentQueue,
    fun t => ?_, fun t => ?_⟩ <;> rw [htcb]
  · exact hw.owner t
  · exact hw.commands t
  · exact hw.reason t
  · exact hw.live t

/-! ## A tick -/

/-- The thread that writes is blocked, and the first in the queue runs. -/
structure Wrote (k k' : Kernel) (c h : ℕ) : Prop where
  writers : Writers k'
  currentTick : k'.currentTick = k.currentTick
  running : k'.runningThread = some h
  quantum : k'.sched.quantumRemaining = 4
  blocked : (k'.tcb c).state = .blocked
  before : ∀ t, t ≠ c → (k'.tcb t).state = .blocked → (k.tcb t).state = .blocked

theorem wrote_executeIoWrite (hw : Writers k) (hrun : k.runningThread = some c) {q : List ℕ}
    (hq : k.sched.rr.toList = h :: q) :
    machineStep (k, .execute) = (executeIoWrite k c, .retire c) ∧
      Wrote k (executeIoWrite k c) c h ∧ ∃ back, (executeIoWrite k c).sched.rr.toList = q ++ back := by
  obtain ⟨hcur, hrunning⟩ := runningThread_some hrun
  have hc : c < 5 := hw.threadCount ▸ hw.tables.running_lt hrun
  have hx : machineStep (k, .execute) = (executeIoWrite k c, .retire c) := by
    simp only [machineStep, hrun, executeCommand, hw.command hc]
  have hm : MachineTables (k, .execute) := ⟨hw.tables, fun t ht => by cases ht⟩
  have htab := (tables_machineStep hm).tables
  have hident := (tableStep hm).ident
  rw [hx] at htab hident
  have hcalm : Calm k (executeIoWrite k c) := by
    have hcommand := calm_executeCommand k c
    rwa [executeCommand, hw.command hc] at hcommand
  have hb : Blocked k (executeIoWrite k c) c .ioBlock :=
    blocked_registerIo hw.tables hrun ⟨rfl⟩ _ _
  set k₀ : Kernel := { k with
    ioSeq := k.ioSeq + 1
    fs := (fsCreate k.fs (logPath (k.tcb c).ownerPid k.ioSeq)).1 } with hk₀
  have hrun₀ : ((k₀.setTcb c TCB.advance).tcb c).state = .running := by
    rw [Kernel.tcb, Kernel.setTcb, Scheduler.setTcb_self]
    exact hrunning
  have hrest : executeIoWrite k c = registerIo (blockThread (k₀.setTcb c TCB.advance) c .ioBlock)
      (k.tcb c).ownerPid (logPath (k.tcb c).ownerPid k.ioSeq) := rfl
  have hsteady := steady_blockThread (k₀.setTcb c TCB.advance) c .ioBlock
  have hsched : (executeIoWrite k c).sched = schedulerBlock
      ((k.sched.setTcb c TCB.advance).setTcb c fun x => threadBlock x .ioBlock) c := by
    rw [hrest, registerIo_rest]
    exact sched_blockThread hrun₀ .ioBlock
  obtain ⟨hsettled, hmode, hcurrent, hquantum, hqueue⟩ := schedulerBlock_front
    (settled_advance hw.settled c) hw.undisturbed.mode hcur hq hsched
  have hblocked : ∀ t, t ≠ c → ((executeIoWrite k c).tcb t).state = .blocked →
      (k.tcb t).state = .blocked := by
    intro t htc hbt
    exact (hb.frame.stopped t htc (Or.inl hbt)).symm.trans hbt
  have hundisturbed : Undisturbed (executeIoWrite k c) := by
    refine hw.undisturbed.of_calm hcalm hmode ?_ ?_ <;> rw [hrest, registerIo_rest]
    · exact hsteady.graph
    · exact hsteady.sensorBuf
  refine ⟨hx, ⟨⟨htab, hundisturbed, hcalm.threadCount.trans hw.threadCount, fun t ht => ?_,
    fun t ht => ?_, hsettled, fun t ht hbt => ?_, fun t ht hd => ?_⟩, hcalm.currentTick, ?_, hquantum,
    hb.blocked, hblocked⟩, hqueue⟩
  · exact (hw.ids hident t ht).1
  · exact (hw.ids hident t ht).2
  · by_cases htc : t = c
    · exact htc ▸ hb.waitReason
    · have hbt₀ := hblocked t htc hbt
      have hparked := hw.tables.parked_of_blocked hbt₀
      have hsame : (executeIoWrite k c).tcb t = k.tcb t := (hb.frame.parked t htc hparked).1
      rw [hsame]
      exact hw.reason t ht hbt₀
  · by_cases htc : t = c
    · subst htc
      have hbt := hb.blocked
      rw [hd] at hbt
      cases hbt
    · exact hw.live t ht ((hb.frame.stopped t htc (Or.inr hd)).symm.trans hd)
  · exact runningThread_iff.mpr ⟨hcurrent, hsettled.current h hcurrent⟩

/-- The threads whose events are due are queued, and the running thread goes on. -/
structure Completes (k k' : Kernel) (h : ℕ) : Prop where
  writers : Writers k'
  running : k'.runningThread = some h
  behind : ∃ back, k'.sched.rr.toList = k.sched.rr.toList ++ back
  still : ∀ t < 5, (k'.tcb t).state = .blocked → (k.tcb t).state = .blocked ∧
    ∀ e ∈ k.events, e.pid = t → ¬e.dueAt k.currentTick .ioBlock

/-- A thread that is not ready after the completions was not woken. -/
theorem same_of_unready (hd : k.sched.Disciplined k.threadCount)
    (h : ((completeIoEvents k).tcb t).state ≠ .ready) :
    t ∉ {t | ∃ i ∈ List.range k.pendingCount, k.Awaits .ioBlock i t} ∧
      (completeIoEvents k).tcb t = k.tcb t := by
  have hq := (completed_completeIoEvents k).threads hd
  have hnot : t ∉ {t | ∃ i ∈ List.range k.pendingCount, k.Awaits .ioBlock i t} :=
    fun hin => h (hq.ready t hin)
  exact ⟨hnot, hq.same t hnot⟩

theorem running_completeIoEvents (hd : k.sched.Disciplined k.threadCount) (hrun : k.runningThread = some h) :
    (completeIoEvents k).runningThread = some h := by
  have hq := (completed_completeIoEvents k).threads hd
  obtain ⟨hcur, hrunning⟩ := runningThread_some hrun
  refine runningThread_iff.mpr ⟨hq.current.trans hcur, ?_⟩
  rw [hq.same h]
  · exact hrunning
  · rintro ⟨i, -, ha⟩
    exact absurd hrunning (ne_of_eq_of_ne ha.blocked (by decide))

/-- Between the completions and the command nothing else happens if there are only writes. -/
theorem phases_ioEvents (hd : k.sched.Disciplined k.threadCount) (hrun : k.runningThread = some h)
    (hkind : ∀ e, k.Stored e → e.reason = .ioBlock) :
    machineStep^[4] (k, .ioEvents) = (compactPendingEvents (completeIoEvents k), .execute) := by
  have hnone : ∀ i, (completeIoEvents k).due .pageFault i = false := by
    intro i
    rw [Kernel.due, decide_eq_false_iff_not]
    rintro ⟨ha, hr, -⟩
    have hio := hkind _ (stored_completeIoEvents ⟨ha, i, rfl⟩)
    rw [hr] at hio
    cases hio
  have hfaults : machineStep (completeIoEvents k, .pageFaults) = (completeIoEvents k, .compact) := by
    rw [machineStep, completePageFaults_of_none hnone]
  have hdispatch : machineStep (compactPendingEvents (completeIoEvents k), .dispatch) =
      (compactPendingEvents (completeIoEvents k), .execute) := by
    have hrun' : (compactPendingEvents (completeIoEvents k)).runningThread = some h :=
      running_completeIoEvents hd hrun
    rw [machineStep, ensureRunning, hrun']
    rfl
  change machineStep (machineStep (machineStep (completeIoEvents k, .pageFaults))) = _
  rw [hfaults]
  exact hdispatch

theorem completes_completeIoEvents (hw : Writers k) (hrun : k.runningThread = some h)
    (hkind : ∀ e, k.Stored e → e.reason = .ioBlock) :
    machineStep^[4] (k, .ioEvents) = (compactPendingEvents (completeIoEvents k), .execute) ∧
      Completes k (compactPendingEvents (completeIoEvents k)) h := by
  have hd := hw.tables.disciplined
  have hdone := completed_completeIoEvents k
  have hwakes := wakesBehind_completeIoEvents k
  have hident := (hdone.threads hd).frame.ident
  have hsteps := phases_ioEvents hd hrun hkind
  have htab : Tables (compactPendingEvents (completeIoEvents k)) := by
    have hm : MachineTables (k, .ioEvents) := ⟨hw.tables, fun t ht => by cases ht⟩
    have := Machine.invariant (P := fun _ => True) (n := 4) (fun _ h _ => tables_machineStep h)
      (fun _ _ => trivial) hm
    rw [hsteps] at this
    exact this.tables
  have hmode : (completeIoEvents k).sched.schedMode = .rr := hwakes.grows.mode.trans hw.undisturbed.mode
  have hsettled : (completeIoEvents k).sched.Settled 5 (Set.Iio 5) := by
    have ho := hwakes.settled
    rw [hw.threadCount] at ho
    exact ho hw.settled
  have hcalm : Calm k (compactPendingEvents (completeIoEvents k)) := hdone.calm.trans (.of_rest rfl)
  have hsame : ∀ t, ((completeIoEvents k).tcb t).state = .blocked ∨ ((completeIoEvents k).tcb t).state = .done →
      _ ∧ (completeIoEvents k).tcb t = k.tcb t := fun t hb =>
    same_of_unready hd (by rcases hb with hb | hb <;> rw [hb] <;> decide)
  refine ⟨hsteps, ⟨htab, hw.undisturbed.of_calm hcalm hmode hdone.graph hdone.sensorBuf,
    hcalm.threadCount.trans hw.threadCount, fun t ht => (hw.ids hident t ht).1,
    fun t ht => (hw.ids hident t ht).2, hsettled, fun t ht hb => ?_, fun t ht hdn => ?_⟩,
    running_completeIoEvents hd hrun, ?_, fun t ht hb => ?_⟩
  · obtain ⟨-, he⟩ := hsame t (Or.inl hb)
    have hb : ((completeIoEvents k).tcb t).state = .blocked := hb
    change ((completeIoEvents k).tcb t).waitReason = _
    rw [he] at hb ⊢
    exact hw.reason t ht hb
  · obtain ⟨-, he⟩ := hsame t (Or.inr hdn)
    exact hw.live t ht (he ▸ hdn)
  · obtain ⟨back, hback⟩ := hwakes.grows.back
    rw [Scheduler.front_rr hmode, Scheduler.front_rr hw.undisturbed.mode] at hback
    exact ⟨back, hback⟩
  · obtain ⟨hnot, he⟩ := hsame t (Or.inl hb)
    have hbt : (k.tcb t).state = .blocked := he ▸ hb
    refine ⟨hbt, fun e hin hpid hdue => hnot ?_⟩
    obtain ⟨i, hi, rfl, ha⟩ := mem_events.mp hin
    have htn : t < k.threadCount := hw.threadCount.symm ▸ ht
    refine ⟨i, List.mem_range.mpr hi, htn, ?_, ?_, (hw.owner t ht).trans hpid.symm, hbt, hw.reason t ht hbt⟩
    · rw [Kernel.due, decide_eq_true_eq]
      exact ⟨ha, PendingEvent.dueAt_iff.mp hdue⟩
    · obtain ⟨p, -, -, hfind⟩ := hw.tables.findProc_owner htn
      rw [hpid, ← hw.owner t ht, hfind]
      exact Option.some_ne_none p

section tick

variable {slot h' : ℕ} {new : PendingEvent} {kᵢ : Kernel}

theorem two_le_length {α : Type*} {l : List α} {a b : α} (ha : a ∈ l) (hb : b ∈ l) (hne : a ≠ b) :
    2 ≤ l.length := by
  match l with
  | [] => cases ha
  | [x] => exact absurd ((List.mem_singleton.mp ha).trans (List.mem_singleton.mp hb).symm) hne
  | _ :: _ :: l => simp

/-- The events that are due are gone. -/
theorem mem_events_tick (hr : Registered k kᵢ slot new)
    (hk' : k' = compactPendingEvents (completeIoEvents kᵢ)) :
    e ∈ k'.events ↔
      e ∈ kᵢ.events ∧ ¬(e.reason = .ioBlock ∧ e.completionTick ≤ k.currentTick + 1) := by
  rw [hk', events_compactPendingEvents, events_completed (completed_completeIoEvents kᵢ),
    List.mem_filter, Bool.not_eq_true', ← Bool.not_eq_true, PendingEvent.dueAt_iff, hr.currentTick]

theorem stays_in_tick (hr : Registered k kᵢ slot new)
    (hk' : k' = compactPendingEvents (completeIoEvents kᵢ)) (he : e ∈ kᵢ.events)
    (hlt : k.currentTick + 1 < e.completionTick) : e ∈ k'.events :=
  (mem_events_tick hr hk').mpr ⟨he, fun hd => absurd hd.2 (not_le.mpr hlt)⟩

/-- The event of the tick before is due in the next one. -/
theorem last_stays (hs : Slots k c h) (hr : Registered k kᵢ slot new)
    (hk' : k' = compactPendingEvents (completeIoEvents kᵢ)) (hpos : 0 < k.currentTick) :
    ∃ e ∈ k'.events, e.completionTick = k.currentTick + 2 := by
  obtain ⟨e, he, hc⟩ := hs.last hpos
  exact ⟨e, stays_in_tick hr hk' (hr.mem_old he) (by omega), hc⟩

/-- Two events are left after the tick, and there were two before. -/
theorem value_tick (hs : Slots k c h) (hr : Registered k kᵢ slot new)
    (hdue : new.completionTick = k.currentTick + 3)
    (hk' : k' = compactPendingEvents (completeIoEvents kᵢ)) (hpos : 1 < k.currentTick) :
    slotsValue k + 4 ≤ slotsValue k' := by
  have hafter : 2 ≤ k'.events.length := by
    obtain ⟨e, he, hc⟩ := last_stays hs hr hk' (by omega)
    refine two_le_length he (stays_in_tick hr hk' hr.mem_new (by omega)) ?_
    rintro rfl
    omega
  have hbefore : 2 ≤ k.pendingCount := by
    obtain ⟨e, he, hc⟩ := hs.last (by omega)
    obtain ⟨e', he', hc'⟩ := hs.before hpos
    have hle : k.events.length ≤ k.pendingCount := by
      refine (List.length_filter_le _ _).trans ?_
      rw [List.length_map, List.length_range]
    refine (two_le_length he he' ?_).trans hle
    rintro rfl
    omega
  have hnot : new.dueAt kᵢ.currentTick .ioBlock = false := by
    rw [← Bool.not_eq_true, PendingEvent.dueAt_iff, hr.currentTick]
    intro hd
    omega
  rw [hk'] at hafter ⊢
  exact hr.value_advances hnot (fun i hi => (hs.live i hi).1) hbefore hafter

/-- What one tick makes of the slots. -/
theorem slots_tick (hs : Slots k c h) (hr : Registered k kᵢ slot new) (hpid : new.pid = c)
    (hreason : new.reason = .ioBlock) (hdue : new.completionTick = k.currentTick + 3) (hch : c ≠ h)
    (hch' : c ≠ h') (hk' : k' = compactPendingEvents (completeIoEvents kᵢ))
    (hstill : ∀ t < 5, (k'.tcb t).state = .blocked → (t = c ∨ (k.tcb t).state = .blocked) ∧
      ∀ e ∈ kᵢ.events, e.pid = t → ¬e.dueAt kᵢ.currentTick .ioBlock) :
    Slots k' h h' := by
  have ht : k'.currentTick = k.currentTick + 1 := by
    rw [hk', ← hr.currentTick]
    exact (completed_completeIoEvents kᵢ).calm.currentTick
  have hstored : ∀ e, k'.Stored e → e = new ∨ k.Stored e := by
    intro e he
    rw [hk'] at he
    exact hr.stored (stored_completeIoEvents (stored_compact he))
  have hnew : new ∈ k'.events := stays_in_tick hr hk' hr.mem_new (by omega)
  refine ⟨fun e he => ?_, fun e e' he he' hc => ?_, fun i hi => ?_, fun e he hp => ?_, fun e he hp => ?_,
    fun t htlt hb => ?_, fun _ => ⟨new, hnew, by omega⟩, fun hpos => ?_⟩
  · rcases hstored e he with rfl | he
    · exact ⟨hreason, by omega⟩
    · have := hs.kind e he
      exact ⟨this.1, by omega⟩
  · rcases hstored e he with rfl | he <;> rcases hstored e' he' with rfl | he'
    · rfl
    · have := (hs.kind e' he').2
      omega
    · have := (hs.kind e he).2
      omega
    · exact hs.apart e e' he he' hc
  · have hin : k'.pending i ∈ k'.events := by
      rw [hk'] at hi ⊢
      rw [events_compactPendingEvents]
      exact compact_mem _ hi
    have ha := (stored_of_mem hin).active
    have hio : (k'.pending i).reason = .ioBlock := by
      rcases hstored _ ⟨ha, i, rfl⟩ with he | he
      · rw [he, hreason]
      · exact (hs.kind _ he).1
    rw [ht]
    exact ⟨ha, not_le.mp fun hle => ((mem_events_tick hr hk').mp hin).2 ⟨hio, hle⟩⟩
  · rcases hstored e he with rfl | he
    · exact absurd (Nat.cast_inj.mp (hpid.symm.trans hp)) hch
    · have := hs.next e he hp
      omega
  · rcases hstored e he with rfl | he
    · exact absurd (Nat.cast_inj.mp (hpid.symm.trans hp)) hch'
    · have := (hs.kind e he).2
      omega
  · obtain ⟨hbefore, hnot⟩ := hstill t htlt hb
    have hevent : ∃ e ∈ kᵢ.events, e.pid = t := by
      rcases hbefore with rfl | hb
      · exact ⟨new, hr.mem_new, hpid⟩
      · obtain ⟨e, he, hp⟩ := hs.waited t htlt hb
        exact ⟨e, hr.mem_old he, hp⟩
    obtain ⟨e, he, hp⟩ := hevent
    have hdueAt := hnot e he hp
    rw [PendingEvent.dueAt_iff, hr.currentTick] at hdueAt
    exact ⟨e, (mem_events_tick hr hk').mpr ⟨he, hdueAt⟩, hp⟩
  · obtain ⟨e, he, hc⟩ := last_stays hs hr hk' (by omega)
    exact ⟨e, he, by omega⟩

end tick

/-! ## The run -/

/-- Where a command is executed : thread `c` writes, and `h` is next. -/
structure Turns (k : Kernel) (c h : ℕ) : Prop where
  writers : Writers k
  running : k.runningThread = some c
  queue : ∃ q, k.sched.rr.toList = h :: q
  slots : Slots k c h

/-- The tick ends after the write. -/
theorem write_to_top (hw : Writers k) (hrun : k.runningThread = some c) {q : List ℕ}
    (hq : k.sched.rr.toList = h :: q) :
    ∃ k', machineStep^[10] (k, .execute) = (k', .top) ∧ Still (executeIoWrite k c) k' ∧
      k'.currentTick = k.currentTick + 1 := by
  obtain ⟨hx, hwrote, -⟩ := wrote_executeIoWrite hw hrun hq
  obtain ⟨k', hsteps, hstill, htick⟩ := rest_of_tick hwrote.writers.undisturbed
    (ne_of_eq_of_ne hwrote.blocked (by decide)) (runningThread_some hwrote.running).1 hwrote.quantum
  refine ⟨k', ?_, hstill, htick.trans (congrArg (· + 1) hwrote.currentTick)⟩
  rw [Function.iterate_succ_apply, hx, hsteps]

/-- The write takes a slot, and the turn goes on to the next thread. -/
theorem turns_tick (ht : Turns k c h) {slot : ℕ} (hslot : freeSlot k = some slot) :
    ∃ k' h', machineStep^[16] (k, .execute) = (k', .execute) ∧ Turns k' h h' ∧
      k'.currentTick = k.currentTick + 1 ∧
      (1 < k.currentTick → slotsValue k + 4 ≤ slotsValue k') := by
  have hw := ht.writers
  obtain ⟨h₀, h', q, hq⟩ := two_ready hw ht.running ht.slots
  obtain rfl : h = h₀ := by
    obtain ⟨q', hq'⟩ := ht.queue
    exact (List.cons_eq_cons.mp (hq'.symm.trans hq)).1
  obtain ⟨-, hwrote, back, hback⟩ := wrote_executeIoWrite hw ht.running hq
  obtain ⟨k₁, hsteps₁, hstill₁, htick₁⟩ := write_to_top hw ht.running hq
  have hu₁ := hwrote.writers.undisturbed.of_still hstill₁
  obtain ⟨k₂, hsteps₂, hstill₂, htick₂⟩ := start_of_tick hu₁
  have hto : machineStep^[12] (k, .execute) = (k₂, .ioEvents) := by
    rw [show 12 = 2 + 10 from rfl, Function.iterate_add_apply, hsteps₁, hsteps₂]
  have htab : Tables k₂ := by
    have hm := Machine.invariant (P := fun _ => True) (n := 12) (fun _ h _ => tables_machineStep h)
      (fun _ _ => trivial) (⟨hw.tables, fun t ht => by cases ht⟩ : MachineTables (k, .execute))
    rw [hto] at hm
    exact hm.tables
  have hstill := hstill₁.trans hstill₂
  have hw₂ := hwrote.writers.of_still hstill htab
  have htcb : ∀ t, k₂.tcb t = (executeIoWrite k c).tcb t := fun t => congrFun hstill.tcb t
  have hrun₂ : k₂.runningThread = some h := by
    rw [Kernel.runningThread, hstill.current]
    simp only [htcb]
    exact hwrote.running
  obtain ⟨hpending, hcount⟩ := executeIoWrite_slot (c := c) hslot
  set new := ioEvent k slot (k.tcb c).ownerPid (logPath (k.tcb c).ownerPid k.ioSeq) with hnew
  have hr : Registered k k₂ slot new := ⟨hslot, rfl, hstill.quiet.pending.trans hpending,
    hstill.quiet.pendingCount.trans hcount, htick₂.trans htick₁⟩
  have hkind : ∀ e, k₂.Stored e → e.reason = .ioBlock := by
    intro e he
    rcases hr.stored he with rfl | he
    · rfl
    · exact (ht.slots.kind e he).1
  obtain ⟨hsteps₃, hdone⟩ := completes_completeIoEvents hw₂ hrun₂ hkind
  have hc : c < 5 := hw.threadCount ▸ hw.tables.running_lt ht.running
  have hne : ∀ u ∈ k.sched.rr.toList, c ≠ u := by
    rintro u hu rfl
    have hready := hw.settled.ready c (by rw [Scheduler.queued_rr hw.undisturbed.mode]; exact hu)
    rw [show (k.sched.tcb c).state = .running from (runningThread_some ht.running).2] at hready
    cases hready
  have hgrow := value_tick ht.slots hr rfl rfl
  have hslots := slots_tick ht.slots hr (hw.owner c hc) rfl rfl
    (hne h (hq ▸ List.mem_cons_self)) (hne h' (hq ▸ List.mem_cons_of_mem _ List.mem_cons_self)) rfl
    fun t htlt hb => by
      obtain ⟨hb₂, hnot⟩ := hdone.still t htlt hb
      refine ⟨?_, hnot⟩
      rw [htcb] at hb₂
      by_cases htc : t = c
      · exact Or.inl htc
      · exact Or.inr (hwrote.before t htc hb₂)
  refine ⟨_, h', ?_, ⟨hdone.writers, hdone.running, ?_, hslots⟩, ?_, hgrow⟩
  · rw [show 16 = 4 + 12 from rfl, Function.iterate_add_apply, hto, hsteps₃]
  · obtain ⟨back', hback'⟩ := hdone.behind
    rw [hback', hstill.rr, hback]
    exact ⟨_, rfl⟩
  · exact (completed_completeIoEvents k₂).calm.currentTick.trans (htick₂.trans htick₁)

/-- Without a free slot the thread is blocked, and no event is one of its process. -/
theorem blocked_of_full (ht : Turns k c h) (hfull : freeSlot k = none) :
    ∃ k', machineStep^[10] (k, .execute) = (k', .top) ∧ k'.currentTick = k.currentTick + 1 ∧
      c < k'.threadCount ∧ (k'.tcb c).state = .blocked ∧ (k'.tcb c).waitReason = .ioBlock ∧
      ∀ i < k'.pendingCount, (k'.pending i).active = true → (k'.pending i).pid ≠ (k'.tcb c).ownerPid := by
  have hw := ht.writers
  obtain ⟨q, hq⟩ := ht.queue
  obtain ⟨-, hwrote, -⟩ := wrote_executeIoWrite hw ht.running hq
  obtain ⟨k', hsteps, hstill, htick⟩ := write_to_top hw ht.running hq
  have hc : c < 5 := hw.threadCount ▸ hw.tables.running_lt ht.running
  have hw' := hwrote.writers
  have htcb : k'.tcb c = (executeIoWrite k c).tcb c := congrFun hstill.tcb c
  obtain ⟨hpending, hcount⟩ := executeIoWrite_full (c := c) hfull
  refine ⟨k', hsteps, htick, ?_, ?_, ?_, fun i hi ha hpid => ?_⟩
  · rw [hstill.threadCount, hw'.threadCount]
    exact hc
  · rw [htcb]
    exact hwrote.blocked
  · rw [htcb]
    exact hw'.reason c hc hwrote.blocked
  · rw [htcb, hw'.owner c hc] at hpid
    rw [hstill.quiet.pendingCount, hcount] at hi
    rw [hstill.quiet.pending, hpending] at ha hpid
    have hold := ht.slots.current _ ⟨ha, i, rfl⟩ hpid
    exact absurd (ht.slots.live i hi).2 (not_lt.mpr hold)

theorem inactive_kernelInit (k₀ : Kernel) (cfg : KernelConfig) (w : List ProcessSpec) (i : ℕ) :
    ((kernelInit k₀ cfg w).pending i).active = false :=
  congrArg (fun k : Kernel => (k.pending i).active) (loaded_foldl loaded_bootProcess w.zipIdx _)

/-- As long as nothing is written the slots stay empty. -/
theorem inactive_machineStep {m : Kernel × Phase} (hm : MachineTables m)
    (hph : m.2 ∈ [Phase.top, .arrivals, .ioEvents, .pageFaults, .compact, .dispatch])
    (h0 : ∀ i, (m.1.pending i).active = false) (hn : m.1.pendingCount = 0) :
    (∀ i, ((machineStep m).1.pending i).active = false) ∧ (machineStep m).1.pendingCount = 0 ∧
      (machineStep m).1.sensorBuf = m.1.sensorBuf := by
  have hquiet : endingAt m = none → m.2.busy = false →
      (∀ i, ((machineStep m).1.pending i).active = false) ∧ (machineStep m).1.pendingCount = 0 ∧
        (machineStep m).1.sensorBuf = m.1.sensorBuf := by
    intro he hb
    have hq := quiet_machineStep hm he hb
    exact ⟨fun i => by rw [hq.pending]; exact h0 i, hq.pendingCount.trans hn, hq.sensorBuf⟩
  have hcompleted : ∀ {reason : BlockReason} {k k' : Kernel}, (∀ i, (k.pending i).active = false) →
      k.pendingCount = 0 → CompletedAll reason (List.range k.pendingCount) k k' →
        (∀ i, (k'.pending i).active = false) ∧ k'.pendingCount = 0 ∧ k'.sensorBuf = k.sensorBuf := by
    intro reason k k' h0 hn hc
    refine ⟨fun i => ?_, hc.pendingCount.trans hn, hc.sensorBuf⟩
    rw [hc.pending]
    dsimp only
    split_ifs
    · rfl
    · exact h0 i
  obtain ⟨k, ph⟩ := m
  cases ph with
  | top => exact hquiet rfl rfl
  | arrivals => exact hquiet rfl rfl
  | dispatch => exact hquiet rfl rfl
  | ioEvents => exact hcompleted h0 hn (completed_completeIoEvents k)
  | pageFaults => exact hcompleted h0 hn (completed_completePageFaults k)
  | compact =>
    have hn : k.pendingCount = 0 := hn
    refine ⟨fun i => ?_, ?_, rfl⟩
    · rw [← Bool.not_eq_true]
      intro ha
      obtain ⟨-, j, hj⟩ := stored_compact ⟨ha, i, rfl⟩
      exact absurd (hj ▸ h0 j) (by simpa using ha)
    · have := (compact_foldl k.pending k.pendingCount).1
      exact Nat.le_zero.mp (hn ▸ this)
  | _ => simp at hph

theorem validWorkload_fiveWriters : ValidWorkload fiveWriters := by
  decide

/-- Before the first write : thread `0` runs, the others are queued behind it, and there are no
events. -/
theorem turns_of_empty (htables : Tables k) (hu : Undisturbed k) (hn : k.threadCount = 5)
    (howner : ∀ t < 5, (k.tcb t).ownerPid = t ∧ (k.tcb t).commands = [.ioWrite] ∧
      (k.tcb t).commandCount = 1)
    (hstates : ∀ t < 5, (k.tcb t).state = if t = 0 then .running else .ready)
    (hqueue : k.sched.rr.toList = [1, 2, 3, 4]) (hcur : k.sched.currentThread = some 0)
    (h0 : ∀ i, (k.pending i).active = false) (hcount : k.pendingCount = 0)
    (htick : k.currentTick = 0) : Turns k 0 1 := by
  have hother : ∀ t < 5, (k.tcb t).state ≠ .blocked ∧ (k.tcb t).state ≠ .done := by
    intro t ht
    rw [hstates t ht]
    split_ifs <;> decide
  have hrunning : (k.sched.tcb 0).state = .running := hstates 0 (by decide)
  have hstored : ∀ e, ¬k.Stored e := by
    rintro e ⟨ha, i, rfl⟩
    rw [h0 i] at ha
    cases ha
  have hmem : ∀ t < 5, t ≠ 0 ↔ t ∈ [1, 2, 3, 4] := by decide
  have hlt : ∀ t ∈ [1, 2, 3, 4], t < 5 := by decide
  have hsettled : k.sched.Settled 5 (Set.Iio 5) := by
    refine ⟨hn ▸ htables.disciplined.toSound, fun c hc => ?_, fun t ht => ?_, fun t ht hr => ?_⟩
    · rw [hcur] at hc
      rw [← Option.some.inj hc]
      exact hrunning
    · rw [Scheduler.queued_rr hu.mode, hqueue, Multiset.mem_coe] at ht
      exact (hstates t (hlt t ht)).trans (if_neg ((hmem t (hlt t ht)).mpr ht))
    · rw [Scheduler.queued_rr hu.mode, hqueue, Multiset.mem_coe]
      refine (hmem t ht).mp ?_
      rintro rfl
      rw [hrunning] at hr
      cases hr
  refine ⟨⟨htables, hu, hn, fun t ht => (howner t ht).1, fun t ht => (howner t ht).2, hsettled,
    fun t ht hb => absurd hb (hother t ht).1, fun t ht => (hother t ht).2⟩,
    runningThread_iff.mpr ⟨hcur, hrunning⟩, ⟨[2, 3, 4], hqueue⟩,
    fun e he => absurd he (hstored e), fun e _ he => absurd he (hstored e), fun i hi => ?_,
    fun e he => absurd he (hstored e), fun e he => absurd he (hstored e),
    fun t ht hb => absurd hb (hother t ht).1, fun hpos => ?_, fun hpos => ?_⟩ <;> omega

theorem turns_start : ∃ k, machineRun (kernelInit .zero ⟨.rr, 0, true, false⟩ fiveWriters) 6 =
    (k, .execute) ∧ Turns k 0 1 ∧ k.currentTick = 0 := by
  set run := machineRun (kernelInit .zero ⟨.rr, 0, true, false⟩ fiveWriters) with hrun
  have htab : ∀ n, MachineTables (run n) :=
    tables_machineRun .zero ⟨.rr, 0, true, false⟩ validWorkload_fiveWriters
  have hph : ∀ n < 6, (run n).2 ∈ [Phase.top, .arrivals, .ioEvents, .pageFaults, .compact, .dispatch] := by
    decide +kernel
  have hslots : ∀ n ≤ 6, (∀ i, ((run n).1.pending i).active = false) ∧ (run n).1.pendingCount = 0 ∧
      (run n).1.sensorBuf = bufferInit ∧ (run n).1.config = ⟨.rr, 0, true, false⟩ := by
    intro n
    induction n with
    | zero =>
      obtain ⟨k₁, hl, hcfg, -, hn, -, -⟩ :=
        loaded_kernelInit .zero ⟨.rr, 0, true, false⟩ fiveWriters
      refine fun _ => ⟨inactive_kernelInit _ _ _, ?_, sensorBuf_kernelInit _ _ _, ?_⟩
      · exact (congrArg Kernel.pendingCount hl).trans hn
      · exact (congrArg Kernel.config hl).trans hcfg
    | succ n ih =>
      intro hn
      obtain ⟨h0, hcount, hbuf, hcfg⟩ := ih (by omega)
      have hstep := inactive_machineStep (htab n) (hph n (by omega)) h0 hcount
      rw [hrun, machineRun_succ]
      exact ⟨hstep.1, hstep.2.1, hstep.2.2.trans hbuf, (tableStep (htab n)).config.trans hcfg⟩
  obtain ⟨h0, hcount, hbuf, hcfg⟩ := hslots 6 le_rfl
  have hphase : (run 6).2 = .execute := by decide +kernel
  have hn : (run 6).1.threadCount = 5 := by decide +kernel
  have hmode : (run 6).1.sched.schedMode = .rr := by decide +kernel
  have hqueue : (run 6).1.sched.rr.toList = [1, 2, 3, 4] := by decide +kernel
  have hcur : (run 6).1.sched.currentThread = some 0 := by decide +kernel
  have hstates : ∀ t < 5, ((run 6).1.tcb t).state = if t = 0 then .running else .ready := by
    decide +kernel
  have hgraph : deadlockDetect (run 6).1.graph = none := by decide +kernel
  have harrived : ∀ p < (run 6).1.procCount, ((run 6).1.procs p).state ≠ .new := by decide +kernel
  have halive : 0 < (run 6).1.procCount ∧ ((run 6).1.procs 0).state ≠ .terminated := by
    decide +kernel
  have howner : ∀ t < 5, ((run 6).1.tcb t).ownerPid = t ∧
      ((run 6).1.tcb t).commands = [.ioWrite] ∧ ((run 6).1.tcb t).commandCount = 1 := by
    decide +kernel
  have htick : (run 6).1.currentTick = 0 := by decide +kernel
  clear_value run
  have hu : Undisturbed (run 6).1 := ⟨hcfg, hmode, hgraph, hbuf, harrived, 0, halive⟩
  exact ⟨(run 6).1, Prod.ext rfl hphase,
    turns_of_empty (htab 6).tables hu hn howner hstates hqueue hcur h0 hcount htick, htick⟩

/-- As long as each write finds a slot, the writers take turns. -/
theorem turns_run {k₀ : Kernel} (h₀ : Turns k₀ 0 1) (htick : k₀.currentTick = 0) {i : ℕ}
    (hfree : ∀ j < i, freeSlot (machineStep^[16 * j] (k₀, .execute)).1 ≠ none) :
    ∃ k c h, machineStep^[16 * i] (k₀, .execute) = (k, .execute) ∧ Turns k c h ∧ k.currentTick = i := by
  induction i with
  | zero => exact ⟨k₀, 0, 1, rfl, h₀, htick⟩
  | succ i ih =>
    obtain ⟨k, c, h, hk, ht, hi⟩ := ih fun j hj => hfree j (by omega)
    have hsome := hfree i i.lt_succ_self
    rw [hk] at hsome
    obtain ⟨slot, hslot⟩ := Option.ne_none_iff_exists'.mp hsome
    obtain ⟨k', h', hsteps, ht', htick', -⟩ := turns_tick ht hslot
    refine ⟨k', h, h', ?_, ht', ?_⟩
    · rw [Nat.mul_succ, Nat.add_comm, Function.iterate_add_apply, hk, hsteps]
    · rw [htick', hi]
      push_cast
      rfl

/-- One of the first writes finds no slot. -/
theorem slots_run_out {k₀ : Kernel} (h₀ : Turns k₀ 0 1) (htick : k₀.currentTick = 0) :
    ∃ i ≤ 2 ^ 30 + 2, freeSlot (machineStep^[16 * i] (k₀, .execute)).1 = none := by
  by_contra hnot
  have hall : ∀ i ≤ 2 ^ 30 + 2, freeSlot (machineStep^[16 * i] (k₀, .execute)).1 ≠ none :=
    fun i hi hnone => hnot ⟨i, hi, hnone⟩
  set F : ℕ → ℕ → Bool := fun i s =>
    ((machineStep^[16 * (i + 2)] (k₀, .execute)).1.pending s).active with hF
  have hgrow : ∀ i, (∀ j ≤ i, ∃ s < maxPending, F j s = false) →
      Odometer.value (F i) maxPending + 2 ^ 2 ≤ Odometer.value (F (i + 1)) maxPending := by
    intro i hfree
    have hsome : ∀ j ≤ i + 2, freeSlot (machineStep^[16 * j] (k₀, .execute)).1 ≠ none := by
      intro j hj
      rcases lt_or_ge j 2 with hj2 | hj2
      · exact hall j (by omega)
      · obtain ⟨s, hs, hf⟩ := hfree (j - 2) (by omega)
        rw [hF] at hf
        dsimp only at hf
        rw [Nat.sub_add_cancel hj2] at hf
        intro hnone
        rw [freeSlot_eq_none.mp hnone s hs] at hf
        cases hf
    obtain ⟨k, c, h, hk, ht, hi⟩ := turns_run h₀ htick fun j (hj : j < i + 2) => hsome j hj.le
    have hlast := hsome (i + 2) le_rfl
    rw [hk] at hlast
    obtain ⟨slot, hslot⟩ := Option.ne_none_iff_exists'.mp hlast
    obtain ⟨k', h', hsteps, -, -, hadv⟩ := turns_tick ht hslot
    have hk' : machineStep^[16 * (i + 1 + 2)] (k₀, .execute) = (k', .execute) := by
      rw [show 16 * (i + 1 + 2) = 16 + 16 * (i + 2) by ring, Function.iterate_add_apply, hk, hsteps]
    have hle := hadv (by rw [hi]; push_cast; omega)
    rw [hF]
    simp only [hk, hk']
    exact hle
  obtain ⟨i, hi, hfull⟩ := Odometer.exists_full (by decide) hgrow
  have hi : i ≤ 2 ^ 30 := hi
  exact hall (i + 2) (by omega) (freeSlot_eq_none.mpr hfull)

/-- The processor goes round among five threads that write, and less than `2 ^ 31` ticks later one
of them is blocked for I/O and no event below `pending_count` is one of its process. -/
theorem blocked_without_event :
    let run := machineRun (kernelInit .zero ⟨.rr, 0, true, false⟩ fiveWriters)
    ValidWorkload fiveWriters ∧ ∃ n t, (run n).2 = .top ∧ (run n).1.currentTick < 2 ^ 31 ∧
      t < (run n).1.threadCount ∧ ((run n).1.tcb t).state = .blocked ∧
      ((run n).1.tcb t).waitReason = .ioBlock ∧
      ∀ i < (run n).1.pendingCount, ((run n).1.pending i).active = true →
        ((run n).1.pending i).pid ≠ ((run n).1.tcb t).ownerPid := by
  intro run
  refine ⟨validWorkload_fiveWriters, ?_⟩
  obtain ⟨k₀, hk₀, h₀, htick⟩ := turns_start
  have hrun : ∀ n, run (n + 6) = machineStep^[n] (k₀, .execute) := by
    intro n
    rw [← hk₀]
    exact Function.iterate_add_apply machineStep n 6 _
  clear_value run
  have hex := slots_run_out h₀ htick
  have hfind := Nat.find_spec hex
  set i := Nat.find hex with hi
  obtain ⟨hle, hfull⟩ := hfind
  obtain ⟨k, c, h, hk, ht, hcur⟩ := turns_run h₀ htick (i := i) fun j hj hnone =>
    Nat.find_min hex hj ⟨by omega, hnone⟩
  rw [hk] at hfull
  obtain ⟨k', hsteps, htick', hresult⟩ := blocked_of_full ht hfull
  have hend : run (10 + 16 * i + 6) = (k', .top) := by
    rw [hrun, Function.iterate_add_apply, hk, hsteps]
  refine ⟨10 + 16 * i + 6, c, ?_⟩
  rw [hend]
  refine ⟨rfl, ?_, hresult⟩
  change k'.currentTick < _
  omega

end FleetOS
