import FleetOS.QueueLevels

/-!
# Runs of the scheduler

The calls of the scheduler's interface from `scheduler_init` on, with what the kernel does to
the thread before it blocks or unblocks it. In every state a thread that was added and is ready
is in one queue, once, and every queued thread is ready; the current thread is the one that
runs, and is in no queue (`Settled`). Each operation keeps this : a `Switch` exchanges the
current thread for a queued one, `Added` queues a thread, and `Withdrawn` takes one out.

A thread is pushed only when it is in no queue, and there are no more threads than places, so
every push finds room (`Orderly.room_callPushes`).
-/

namespace FleetOS

namespace Scheduler

/-- The current thread runs, the queued threads are ready, and the threads of `added` that are
ready are queued. -/
structure Settled (s : Scheduler) (n : ℕ) (added : Set ℕ) : Prop extends s.Sound n where
  current : ∀ c, s.currentThread = some c → (s.tcb c).state = .running
  ready : ∀ t ∈ s.queued, (s.tcb t).state = .ready
  mem_queued : ∀ t ∈ added, (s.tcb t).state = .ready → t ∈ s.queued

namespace Settled

variable {s s' : Scheduler} {n : ℕ} {added : Set ℕ}

theorem current_not_queued (h : s.Settled n added) {c : ℕ} (hc : s.currentThread = some c) :
    c ∉ s.queued :=
  (h.running c (h.current_lt c hc) (h.current c hc)).2

theorem disciplined (h : s.Settled n added) : s.Disciplined n :=
  ⟨h.toSound, fun c hc => ⟨h.current_not_queued hc, Or.inl (h.current c hc)⟩⟩

/-- The same queues, states and current thread. -/
theorem transfer (h : s.Settled n added) (hs : s'.Sound n) (hq : s'.queued = s.queued)
    (hcur : s'.currentThread = s.currentThread)
    (hstate : ∀ u, (s'.tcb u).state = (s.tcb u).state) : s'.Settled n added := by
  refine ⟨hs, fun c hc => ?_, fun t ht => ?_, fun t ha ht => ?_⟩
  · rw [hstate]
    exact h.current c (hcur ▸ hc)
  · rw [hstate]
    exact h.ready t (hq ▸ ht)
  · rw [hq]
    exact h.mem_queued t ha (hstate t ▸ ht)

/-- The same queues and thread states, whatever the quantum, the clock and the counters are. -/
theorem congr (h : s.Settled n added) (htcb : s'.tcb = s.tcb) (hrr : s'.rr = s.rr)
    (hmlfq : s'.mlfq = s.mlfq) (hcur : s'.currentThread = s.currentThread)
    (hmode : s'.schedMode = s.schedMode) (hcq : s'.currentQueue = s.currentQueue) :
    s'.Settled n added := by
  have hs := (h.disciplined.congr htcb hrr hmlfq hcur hmode hcq).disciplined.toSound
  exact h.transfer hs (queued_congr hmode hrr hmlfq) hcur fun u => by rw [htcb]

end Settled

/-! ## The three ways to change the queues -/

/-- A switch also settles a scheduler whose current thread is queued already. -/
theorem Switch.settled {s s' : Scheduler} {n t : ℕ} {added : Set ℕ} (sw : Switch s s' t)
    (hs : s.Sound n) (hready : ∀ u ∈ s.queued, (s.tcb u).state = .ready)
    (hmem : ∀ u ∈ added, (s.tcb u).state = .ready → u ∈ s.queued) : s'.Settled n added := by
  have hd := sw.disciplined hs
  have htq := (sw.nodup hs).1
  have hstate : ∀ u, u ≠ t → (s'.tcb u).state = if s.Yields u then .ready else (s.tcb u).state := by
    intro u hu
    rw [sw.tcb]
    simp [hu]
  refine ⟨hd.toSound, fun c hc => ?_, fun u hu => ?_, fun u ha hu => ?_⟩
  · rw [sw.current] at hc
    rw [← Option.some.inj hc, sw.tcb]
    simp
  · rw [hstate u fun he => htq (he ▸ hu)]
    split_ifs with hy
    · rfl
    · exact hready u ((sw.mem.mp (Or.inr hu)).resolve_left hy)
  · have hut : u ≠ t := by
      rintro rfl
      rw [sw.tcb] at hu
      simp at hu
    rw [hstate u hut] at hu
    refine (sw.mem.mpr ?_).resolve_left hut
    split_ifs at hu with hy
    · exact Or.inl hy
    · exact Or.inr (hmem u ha hu)

theorem Settled.schedulerNext {s : Scheduler} {n : ℕ} {added : Set ℕ} (h : s.Settled n added) :
    (schedulerNext s).Settled n added := by
  rcases schedulerNext_cases h.toSound with ⟨-, he⟩ | ⟨t, sw⟩
  · rw [he]
    exact h
  · exact sw.settled h.toSound h.ready h.mem_queued

theorem Added.settled {s s' : Scheduler} {n t : ℕ} {added : Set ℕ} (a : Added s s' t)
    (h : s.Settled n (added \ {t})) (ht : t < n) (hnot : t ∉ s.queued)
    (hcur : s.currentThread ≠ some t) : s'.Settled n (insert t added) := by
  have hother : ∀ u, u ≠ t → s'.tcb u = s.tcb u := fun u hu => by rw [a.tcb, if_neg hu]
  refine ⟨a.sound h.toSound ht hnot, fun c hc => ?_, fun u hu => ?_, fun u ha hu => ?_⟩
  · rw [a.current] at hc
    rw [hother c fun he => hcur (he ▸ hc)]
    exact h.current c hc
  · rw [a.queued, Multiset.mem_cons] at hu
    rcases hu with rfl | hu
    · rw [a.tcb, if_pos rfl]
    · rw [hother u fun he => hnot (he ▸ hu)]
      exact h.ready u hu
  · rw [a.queued, Multiset.mem_cons]
    by_cases hut : u = t
    · exact Or.inl hut
    · rw [hother u hut] at hu
      exact Or.inr (h.mem_queued u ⟨Set.mem_of_mem_insert_of_ne ha hut, hut⟩ hu)

theorem Withdrawn.settled {s s' : Scheduler} {n t : ℕ} {added : Set ℕ} (w : Withdrawn s s' t)
    (h : s.Settled n added) : s'.Settled n added := by
  refine ⟨w.sound h.toSound, fun c hc => ?_, fun u hu => ?_, fun u ha hu => ?_⟩
  · obtain ⟨hct, hc'⟩ := w.current_ne hc
    rw [w.other c hct]
    exact h.current c hc'
  · obtain ⟨hut, hu'⟩ := w.not_queued h.nodup hu
    rw [w.other u hut]
    exact h.ready u hu'
  · have hut : u ≠ t := by
      rintro rfl
      rcases w.stopped with hs | hs <;> · rw [hu] at hs; cases hs
    rw [w.other u hut] at hu
    rw [w.queued]
    exact (Multiset.mem_erase_of_ne hut).mpr (h.mem_queued u ha hu)

/-! ## The operations -/

/-- Blocking a queued thread takes it out of its queue. -/
theorem withdrawn_block_queued {s : Scheduler} (hrr : s.rr.WF) (hmlfq : ∀ l, (s.mlfq l).WF) {t : ℕ}
    (hcur : s.currentThread ≠ some t) (reason : BlockReason) :
    schedulerBlock (s.setTcb t fun c => threadBlock c reason) t =
        removeQueued (s.setTcb t fun c => threadBlock c reason) t ∧
      Withdrawn s (schedulerBlock (s.setTcb t fun c => threadBlock c reason) t) t := by
  have hself : (s.setTcb t fun c => threadBlock c reason).tcb t = threadBlock (s.tcb t) reason :=
    setTcb_self _ _ _
  have he : schedulerBlock (s.setTcb t fun c => threadBlock c reason) t =
      removeQueued (s.setTcb t fun c => threadBlock c reason) t := by
    have hb : ((s.setTcb t fun c => threadBlock c reason).tcb t).state ≠ .done := by
      rw [hself]
      exact fun hd => by cases hd
    have hc : (s.setTcb t fun c => threadBlock c reason).currentThread ≠ some t := hcur
    rw [schedulerBlock, if_neg hb, if_neg hc]
  have r := removed_removeQueued (s := s.setTcb t fun c => threadBlock c reason) hrr hmlfq t
  refine ⟨he, ?_⟩
  rw [he]
  refine ⟨r.mode, ?_, r.currentQueue, r.queued, Or.inl ?_, ?_, Or.inl ?_, fun u hu => ?_, r.rr_wf,
    r.mlfq_wf⟩
  · rw [if_neg hcur]
    exact r.current
  all_goals rw [r.tcb]
  · rw [hself]
    rfl
  · rw [hself]
    rfl
  · rw [hself]
    rfl
  · exact setTcb_of_ne _ hu _

theorem Settled.block {s : Scheduler} {n t : ℕ} {added : Set ℕ} (h : s.Settled n added)
    (reason : BlockReason) :
    (schedulerBlock (s.setTcb t fun c => threadBlock c reason) t).Settled n added := by
  by_cases hcur : s.currentThread = some t
  · obtain ⟨w, -, -⟩ := withdrawn_blockCurrent h.toSound hcur (h.current_not_queued hcur) reason
    rw [schedulerBlock_current hcur]
    exact (w.settled h).schedulerNext
  · exact (withdrawn_block_queued h.rr_wf h.mlfq_wf hcur reason).2.settled h

theorem Placed.block {s : Scheduler} {n t : ℕ} {added : Set ℕ} (hp : s.Placed)
    (h : s.Settled n added) (reason : BlockReason) :
    (schedulerBlock (s.setTcb t fun c => threadBlock c reason) t).Placed := by
  have hset : (s.setTcb t fun c => threadBlock c reason).Placed := hp.setTcb (Or.inl rfl)
  by_cases hcur : s.currentThread = some t
  · have hnot := h.current_not_queued hcur
    obtain ⟨w, -, -⟩ := withdrawn_blockCurrent h.toSound hcur hnot reason
    rw [schedulerBlock_current hcur]
    refine Placed.schedulerNext ?_ (w.sound h.toSound)
    unfold blockCurrent
    split_ifs
    · have hlevel : ((s.setTcb t fun c => threadBlock c reason).setTcb t
          fun c => { c with mlfqLevel := s.currentQueue }).Placed := hset.setTcb (Or.inr hnot)
      exact hlevel.congr rfl rfl rfl fun _ => rfl
    · exact hset.congr rfl rfl rfl fun _ => rfl
  · rw [(withdrawn_block_queued h.rr_wf h.mlfq_wf hcur reason).1]
    exact hset.removeQueued h.mlfq_wf t

theorem Settled.boostQueue {i : ℤ} (hi : 0 ≤ i ∧ i ≤ 2) {n : ℕ} {added : Set ℕ} :
    ∀ (fuel : ℕ) (s : Scheduler), s.schedMode = .mlfq → s.Settled n added →
      (boostQueue i fuel s).Settled n added
  | 0, _, _, h => h
  | fuel + 1, s, hm, h => by
    rw [boostQueue_succ]
    split_ifs with hne
    · exact h
    · have b := boosted hi hm h.toSound hne
      have hs := (b.frame h.disciplined).disciplined.toSound
      exact Settled.boostQueue hi fuel _ (b.mode.trans hm) (h.transfer hs b.queued b.current b.state)

/-- What a run keeps : who is queued, and where. -/
structure Orderly (s : Scheduler) (n : ℕ) (added : Set ℕ) : Prop extends s.Settled n added where
  placed : s.Placed

namespace Orderly

variable {s : Scheduler} {n : ℕ} {added : Set ℕ}

theorem next (h : s.Orderly n added) : (schedulerNext s).Orderly n added :=
  ⟨h.toSettled.schedulerNext, h.placed.schedulerNext h.toSound⟩

theorem congr {s' : Scheduler} (h : s.Orderly n added) (htcb : s'.tcb = s.tcb) (hrr : s'.rr = s.rr)
    (hmlfq : s'.mlfq = s.mlfq) (hcur : s'.currentThread = s.currentThread)
    (hmode : s'.schedMode = s.schedMode) (hcq : s'.currentQueue = s.currentQueue) :
    s'.Orderly n added :=
  ⟨h.toSettled.congr htcb hrr hmlfq hcur hmode hcq,
    h.placed.congr hmode hrr hmlfq fun u => by rw [htcb]⟩

theorem boostQueue (h : s.Orderly n added) {i : ℤ} (hi : 0 ≤ i ∧ i ≤ 2) (hm : s.schedMode = .mlfq)
    (fuel : ℕ) : (boostQueue i fuel s).Orderly n added :=
  ⟨Settled.boostQueue hi fuel s hm h.toSettled, Placed.boostQueue hi fuel s hm h.disciplined h.placed⟩

theorem priorityBoost (h : s.Orderly n added) (tick : ℤ) :
    (schedulerPriorityBoost s tick).Orderly n added := by
  unfold schedulerPriorityBoost
  split
  · exact h
  · rename_i hm
    set s₀ : Scheduler := { s with
      lastBoostTick := tick, priorityBoostCount := s.priorityBoostCount + 1 }
    have h₀ : s₀.Orderly n added := h.congr rfl rfl rfl rfl rfl rfl
    have hm₀ : s₀.schedMode = .mlfq := hm
    have hmode := (frame_boostQueue (i := 1) (by omega) (s₀.mlfq 1).count s₀ hm₀ h₀.disciplined).mode
    exact (h₀.boostQueue (by omega) hm₀ _).boostQueue (by omega) (hmode.trans hm₀) _

/-- After a demotion the current thread is queued, and the rest is as it should be. -/
theorem sound_demote (h : s.Orderly n added) {c : ℕ} (hcur : s.currentThread = some c) :
    (demoteCurrent s c).Sound n := by
  by_cases hm : s.schedMode = .mlfq
  · have hc := h.current_lt c hcur
    have d := demoted h.toSound hm hc (h.current c hcur)
    exact d.sound h.toSound hc (h.current_not_queued hcur)
  · have he : demoteCurrent s c = s := if_neg fun hd => hm hd.1
    rw [he]
    exact h.toSound

theorem demote_next (h : s.Orderly n added) {c : ℕ} (hcur : s.currentThread = some c) :
    (schedulerNext (demoteCurrent s c)).Orderly n added := by
  have hc := h.current_lt c hcur
  have hrun := h.current c hcur
  have hnot := h.current_not_queued hcur
  by_cases hm : s.schedMode = .mlfq
  · have d := demoted h.toSound hm hc hrun
    have hs := d.sound h.toSound hc hnot
    obtain ⟨level, -, hself⟩ := d.self
    refine ⟨?_, (h.placed.demoteCurrent hnot).schedulerNext hs⟩
    rcases schedulerNext_cases hs with ⟨h0, -⟩ | ⟨t, sw⟩
    · rw [d.queued] at h0
      exact absurd h0 Multiset.cons_ne_zero
    · refine sw.settled hs (fun u hu => ?_) fun u ha hu => ?_
      · rw [d.queued, Multiset.mem_cons] at hu
        rcases hu with rfl | hu
        · rw [hself]
        · rw [d.other u fun he => hnot (he ▸ hu)]
          exact h.ready u hu
      · rw [d.queued, Multiset.mem_cons]
        by_cases huc : u = c
        · exact Or.inl huc
        · exact Or.inr (h.mem_queued u ha (d.other u huc ▸ hu))
  · have he : demoteCurrent s c = s := if_neg fun hd => hm hd.1
    rw [he]
    exact h.next

theorem chargeQuantum (h : s.Orderly n added) : (chargeQuantum s).Orderly n added := by
  unfold FleetOS.chargeQuantum
  split
  · exact h.next
  · rename_i c hc
    have hq : ({ s with quantumRemaining := s.quantumRemaining - 1 } : Scheduler).Orderly n added :=
      h.congr rfl rfl rfl rfl rfl rfl
    dsimp only
    split_ifs
    · exact hq.demote_next hc
    · exact hq

theorem tick (h : s.Orderly n added) (tick : ℤ) : (schedulerTick s tick).Orderly n added := by
  obtain ⟨b, hcase⟩ := schedulerTick_cases s tick
  have h₀ : ({ s with lastBoostTick := b } : Scheduler).Orderly n added :=
    h.congr rfl rfl rfl rfl rfl rfl
  rcases hcase with he | ⟨-, he⟩ <;> rw [he]
  · exact h₀.chargeQuantum
  · exact h₀.chargeQuantum.priorityBoost tick

/-- A thread that is in no queue and does not run is queued. -/
theorem add {t : ℕ} (h : s.Orderly n (added \ {t})) (ht : t < n) (hnot : t ∉ s.queued)
    (hcur : s.currentThread ≠ some t) : (schedulerAdd s t).Orderly n (insert t added) :=
  ⟨(Scheduler.added h.toSound ht hnot).settled h.toSettled ht hnot hcur, h.placed.schedulerAdd hnot⟩

end Orderly

end Scheduler

/-! ## Runs -/

/-- A call of the module's interface. -/
inductive SchedCall
  | add (t : ℕ)
  | unblock (t : ℕ)
  | next
  | block (t : ℕ) (reason : BlockReason)
  | terminate (t : ℕ)
  | tick (tick : ℤ)
  | priorityBoost (tick : ℤ)

def schedCall (s : Scheduler) : SchedCall → Scheduler
  | .add t => schedulerAdd s t
  | .unblock t => schedulerUnblock (s.setTcb t threadUnblock) t
  | .next => schedulerNext s
  | .block t reason => schedulerBlock (s.setTcb t fun c => threadBlock c reason) t
  | .terminate t => schedulerTerminate s t
  | .tick tick => schedulerTick s tick
  | .priorityBoost tick => schedulerPriorityBoost s tick

/-- What the callers make sure of, for `n` threads. -/
def CallAllowed (s : Scheduler) (n : ℕ) : SchedCall → Prop
  | .add t | .unblock t =>
    t < n ∧ t ∉ s.queued ∧ s.currentThread ≠ some t ∧ (s.tcb t).state ≠ .done
  | .block t _ => t ∈ s.queued ∨ s.currentThread = some t
  | .terminate t => t < n
  | _ => True

instance (s : Scheduler) (n : ℕ) (call : SchedCall) : Decidable (CallAllowed s n call) :=
  match call with
  | .add t | .unblock t =>
    inferInstanceAs
      (Decidable (t < n ∧ t ∉ s.queued ∧ s.currentThread ≠ some t ∧ (s.tcb t).state ≠ .done))
  | .block t _ => inferInstanceAs (Decidable (t ∈ s.queued ∨ s.currentThread = some t))
  | .terminate t => inferInstanceAs (Decidable (t < n))
  | .next => isTrue trivial
  | .tick _ => isTrue trivial
  | .priorityBoost _ => isTrue trivial

/-- The calls after `scheduler_init`. -/
def schedRun (s₀ : Scheduler) (mode : SchedMode) (calls : List SchedCall) : Scheduler :=
  calls.foldl schedCall (schedulerInit s₀ mode)

/-- Each call is one its caller may make in the state the calls before it lead to. -/
def RunAllowed (s₀ : Scheduler) (mode : SchedMode) (n : ℕ) (calls : List SchedCall) : Prop :=
  ∀ pre call, pre ++ [call] <+: calls → CallAllowed (schedRun s₀ mode pre) n call

/-- The threads that calls have added. -/
def addedBy (calls : List SchedCall) : Set ℕ := {t | .add t ∈ calls ∨ .unblock t ∈ calls}

theorem mem_addedBy {calls : List SchedCall} {t : ℕ} :
    t ∈ addedBy calls ↔ .add t ∈ calls ∨ .unblock t ∈ calls :=
  Iff.rfl

theorem addedBy_append (calls calls' : List SchedCall) :
    addedBy (calls ++ calls') = addedBy calls ∪ addedBy calls' := by
  ext t
  simp only [mem_addedBy, List.mem_append, Set.mem_union]
  tauto

/-! ## Pushes -/

/-- The queues that the operations push a thread into, as they are before each push. -/
def yieldPushes (s : Scheduler) : List ReadyQueue :=
  match s.currentThread with
  | none => []
  | some c =>
    if (s.tcb c).state = .running then
      match s.schedMode with
      | .rr => [s.rr]
      | .mlfq => [s.mlfq (s.tcb c).queueLevel]
    else []

def nextPushes (s : Scheduler) : List ReadyQueue :=
  match s.schedMode with
  | .rr => if s.rr.count = 0 then [] else yieldPushes s
  | .mlfq => if !mlfqHasReady s then [] else yieldPushes s

def addPushes (s : Scheduler) (t : ℕ) : List ReadyQueue :=
  match s.schedMode with
  | .rr => if (findInRr s t).isSome then [] else [s.rr]
  | .mlfq =>
    if (findInQueue (s.mlfq (s.tcb t).queueLevel) t).isSome then []
    else [s.mlfq (s.tcb t).queueLevel]

def boostPushes (i : ℤ) : ℕ → Scheduler → List ReadyQueue
  | 0, _ => []
  | fuel + 1, s =>
    match queuePop (s.mlfq i) with
    | none => []
    | some (t, q) =>
      let s := (s.setMlfq i q).setTcb t fun c => { c with mlfqLevel := 0 }
      s.mlfq 0 :: boostPushes i fuel (s.setMlfq 0 (queuePush (s.mlfq 0) t))

def priorityBoostPushes (s : Scheduler) (tick : ℤ) : List ReadyQueue :=
  match s.schedMode with
  | .rr => []
  | .mlfq =>
    let s := { s with lastBoostTick := tick, priorityBoostCount := s.priorityBoostCount + 1 }
    let s' := boostQueue 1 (s.mlfq 1).count s
    boostPushes 1 (s.mlfq 1).count s ++ boostPushes 2 (s'.mlfq 2).count s'

def demotePushes (s : Scheduler) (c : ℕ) : List ReadyQueue :=
  if s.schedMode = .mlfq ∧ (s.tcb c).state = .running then
    [s.mlfq (if 2 < s.currentQueue + 1 then 2 else s.currentQueue + 1)]
  else []

def chargePushes (s : Scheduler) : List ReadyQueue :=
  match s.currentThread with
  | none => nextPushes s
  | some c =>
    let s := { s with quantumRemaining := s.quantumRemaining - 1 }
    if s.quantumRemaining ≤ 0 then demotePushes s c ++ nextPushes (demoteCurrent s c) else []

def tickPushes (s : Scheduler) (tick : ℤ) : List ReadyQueue :=
  let s := if s.schedMode = .mlfq ∧ s.lastBoostTick = 0 then { s with lastBoostTick := tick } else s
  if s.schedMode = .mlfq ∧ 30 ≤ tick - s.lastBoostTick then
    chargePushes s ++ priorityBoostPushes (chargeQuantum s) tick
  else chargePushes s

def callPushes (s : Scheduler) : SchedCall → List ReadyQueue
  | .add t => addPushes s t
  | .unblock t => addPushes (s.setTcb t threadUnblock) t
  | .next => nextPushes s
  | .block t reason =>
    if s.currentThread = some t then
      nextPushes (Scheduler.blockCurrent (s.setTcb t fun c => threadBlock c reason) t)
    else []
  | .terminate _ => []
  | .tick tick => tickPushes s tick
  | .priorityBoost tick => priorityBoostPushes s tick

/-- Every push finds room. -/
def Room (pushes : List ReadyQueue) : Prop := ∀ q ∈ pushes, q.count < maxReadyQueue

theorem room_nil : Room [] := fun _ hq => absurd hq List.not_mem_nil

theorem Room.append {p p' : List ReadyQueue} (h : Room p) (h' : Room p') : Room (p ++ p') :=
  fun q hq => (List.mem_append.mp hq).elim (h q) (h' q)

namespace Scheduler

variable {s : Scheduler} {n : ℕ} {added : Set ℕ}

/-- A queue of the mode has room for a thread that is in no queue. -/
theorem Sound.room_mlfq (h : s.Sound n) (hm : s.schedMode = .mlfq) {t : ℕ} (ht : t < n)
    (hnot : t ∉ s.queued) {l : ℤ} (hl : 0 ≤ l ∧ l ≤ 2) : Room [s.mlfq l] := by
  intro q hq
  rw [List.mem_singleton.mp hq]
  exact (count_mlfq_le hm hl).trans_lt (h.card_queued_lt ht hnot)

theorem Sound.room_rr (h : s.Sound n) (hm : s.schedMode = .rr) {t : ℕ} (ht : t < n)
    (hnot : t ∉ s.queued) : Room [s.rr] := by
  intro q hq
  rw [List.mem_singleton.mp hq]
  exact (queued_rrPush h hm ht hnot).1

theorem Sound.room_yield (h : s.Sound n) : Room (yieldPushes s) := by
  unfold yieldPushes
  split
  · exact room_nil
  · rename_i c hcur
    have hc := h.current_lt c hcur
    split_ifs with hrun
    · have hnot := (h.running c hc hrun).2
      split
      · rename_i hm
        exact h.room_rr hm hc hnot
      · rename_i hm
        exact h.room_mlfq hm hc hnot (queueLevel_mem h hc)
    · exact room_nil

theorem Sound.room_next (h : s.Sound n) : Room (nextPushes s) := by
  unfold nextPushes
  split <;> split_ifs
  · exact room_nil
  · exact h.room_yield
  · exact room_nil
  · exact h.room_yield

theorem Sound.room_add (h : s.Sound n) {t : ℕ} (ht : t < n) (hnot : t ∉ s.queued) :
    Room (addPushes s t) := by
  unfold addPushes
  split
  · rename_i hm
    split_ifs
    · exact room_nil
    · exact h.room_rr hm ht hnot
  · rename_i hm
    split_ifs
    · exact room_nil
    · exact h.room_mlfq hm ht hnot (queueLevel_mem h ht)

theorem Orderly.room_boost {i : ℤ} (hi : 0 ≤ i ∧ i ≤ 2) :
    ∀ (fuel : ℕ) (s : Scheduler), s.schedMode = .mlfq → s.Orderly n added →
      Room (boostPushes i fuel s)
  | 0, _, _, _ => room_nil
  | fuel + 1, s, hm, h => by
    rw [boostPushes]
    split
    · exact room_nil
    · rename_i t q hpop
      have hne : (s.mlfq i).count ≠ 0 := by
        intro h0
        rw [queuePop, if_pos h0] at hpop
        cases hpop
      rw [queuePop, if_neg hne] at hpop
      obtain ⟨rfl, rfl⟩ := Prod.mk.inj (Option.some.inj hpop)
      obtain ⟨hq, hsound⟩ := boostPop_spec hi hm h.toSound hne
      have hmem : (s.mlfq i).slots (s.mlfq i).head ∈ s.queued := hq ▸ Multiset.mem_cons_self _ _
      have hnot := (Multiset.nodup_cons.mp (hq ▸ h.nodup)).1
      have hroom := hsound.room_mlfq hm (h.queued_lt _ hmem) hnot (l := 0) (by omega)
      have hrest : (boostStep s i).Orderly n added := by
        have := h.boostQueue hi hm 1
        rwa [boostQueue_succ, if_neg hne] at this
      have ih := Orderly.room_boost hi fuel (boostStep s i) hm hrest
      exact Room.append hroom ih

theorem Orderly.room_priorityBoost (h : s.Orderly n added) (tick : ℤ) :
    Room (priorityBoostPushes s tick) := by
  unfold priorityBoostPushes
  split
  · exact room_nil
  · rename_i hm
    set s₀ : Scheduler := { s with
      lastBoostTick := tick, priorityBoostCount := s.priorityBoostCount + 1 }
    have h₀ : s₀.Orderly n added := h.congr rfl rfl rfl rfl rfl rfl
    have hm₀ : s₀.schedMode = .mlfq := hm
    have hmode := (frame_boostQueue (i := 1) (by omega) (s₀.mlfq 1).count s₀ hm₀ h₀.disciplined).mode
    exact Room.append (Orderly.room_boost (by omega) _ s₀ hm₀ h₀)
      (Orderly.room_boost (by omega) _ _ (hmode.trans hm₀)
        (h₀.boostQueue (i := 1) (by omega) hm₀ _))

theorem Orderly.room_charge (h : s.Orderly n added) : Room (chargePushes s) := by
  unfold chargePushes
  split
  · exact h.room_next
  · rename_i c hcur
    set s₀ : Scheduler := { s with quantumRemaining := s.quantumRemaining - 1 }
    have h₀ : s₀.Orderly n added := h.congr rfl rfl rfl rfl rfl rfl
    have hc := h₀.current_lt c hcur
    have hnot := h₀.current_not_queued hcur
    have hcq := h₀.currentQueue
    dsimp only
    split_ifs
    · refine Room.append ?_ ?_
      · unfold demotePushes
        split_ifs with hd
        · exact h₀.room_mlfq hd.1 hc hnot (by omega)
        · exact h₀.room_mlfq hd.1 hc hnot (by omega)
        · exact room_nil
      · exact (h₀.sound_demote hcur).room_next
    · exact room_nil

theorem Orderly.room_tick (h : s.Orderly n added) (tick : ℤ) : Room (tickPushes s tick) := by
  unfold tickPushes
  set s₀ := if s.schedMode = .mlfq ∧ s.lastBoostTick = 0 then { s with lastBoostTick := tick }
    else s with hs₀
  have h₀ : s₀.Orderly n added := by
    rw [hs₀]
    split_ifs
    · exact h.congr rfl rfl rfl rfl rfl rfl
    · exact h
  dsimp only
  split_ifs
  · exact Room.append h₀.room_charge (h₀.chargeQuantum.room_priorityBoost tick)
  · exact h₀.room_charge

/-! ## What a run keeps -/

theorem orderly_schedulerInit (s₀ : Scheduler) (mode : SchedMode) (hn : n ≤ maxThreads)
    (hinit : ∀ t < n, (s₀.tcb t).state ≠ .running ∧ (s₀.tcb t).mlfqLevel = -1) :
    (schedulerInit s₀ mode).Orderly n ∅ := by
  have hd := disciplined_schedulerInit s₀ mode hn (fun t ht => (hinit t ht).1) fun t ht => by
    rw [(hinit t ht).2]
    omega
  have hempty : (⟨fun _ => 0, 0, 0⟩ : ReadyQueue).toList = [] := rfl
  have hq : (schedulerInit s₀ mode).queued = 0 := by
    cases mode <;> rfl
  refine ⟨⟨hd.toSound, fun c hc => ?_, fun t ht => ?_, fun t ha => absurd ha (Set.notMem_empty t)⟩,
    ⟨fun _ => hempty, fun _ _ => hempty, fun l _ t ht => ?_⟩⟩
  · cases hc
  · rw [hq] at ht
    exact absurd ht (Multiset.notMem_zero t)
  · exact absurd (hempty ▸ ht) List.not_mem_nil

/-- A thread that is made ready is not yet where it should be. -/
theorem Settled.unblocked {t : ℕ} (h : s.Settled n added) (hnot : t ∉ s.queued)
    (hcur : s.currentThread ≠ some t) : (s.setTcb t threadUnblock).Settled n (added \ {t}) := by
  have hother : ∀ u, u ≠ t → (s.setTcb t threadUnblock).tcb u = s.tcb u :=
    fun u hu => setTcb_of_ne s hu _
  have hd : (s.setTcb t threadUnblock).Disciplined n := by
    refine h.disciplined.setTcb (fun hm => absurd hm hnot) (fun hr => ?_)
      (fun hc => absurd hc hcur) fun ht => ?_
    · unfold threadUnblock at hr
      split_ifs at hr
      exact hr
    · unfold threadUnblock
      split_ifs <;> exact h.level t ht
  refine ⟨hd.toSound, fun c hc => ?_, fun u hu => ?_, fun u ha hu => ?_⟩
  · have hc : s.currentThread = some c := hc
    rw [hother c fun he => hcur (he ▸ hc)]
    exact h.current c hc
  · have hu : u ∈ s.queued := hu
    rw [hother u fun he => hnot (he ▸ hu)]
    exact h.ready u hu
  · rw [hother u ha.2] at hu
    exact h.mem_queued u ha.1 hu

theorem Settled.unblock {t : ℕ} (h : s.Settled n added) (ht : t < n) (hnot : t ∉ s.queued)
    (hcur : s.currentThread ≠ some t) :
    (schedulerUnblock (s.setTcb t threadUnblock) t).Settled n (insert t added) := by
  have hu := h.unblocked hnot hcur
  exact (Scheduler.added hu.toSound ht hnot).settled hu ht hnot hcur

theorem Orderly.unblocked {t : ℕ} (h : s.Orderly n added) (hnot : t ∉ s.queued)
    (hcur : s.currentThread ≠ some t) : (s.setTcb t threadUnblock).Orderly n (added \ {t}) :=
  ⟨h.toSettled.unblocked hnot hcur, h.placed.setTcb (Or.inr hnot)⟩

theorem Orderly.unblock {t : ℕ} (h : s.Orderly n added) (ht : t < n) (hnot : t ∉ s.queued)
    (hcur : s.currentThread ≠ some t) :
    (schedulerUnblock (s.setTcb t threadUnblock) t).Orderly n (insert t added) :=
  (h.unblocked hnot hcur).add ht hnot hcur

theorem Orderly.subset {added' : Set ℕ} (h : s.Orderly n added) (hsub : added' ⊆ added) :
    s.Orderly n added' :=
  ⟨⟨h.toSound, h.current, h.ready, fun t ht => h.mem_queued t (hsub ht)⟩, h.placed⟩

theorem Orderly.block (h : s.Orderly n added) (t : ℕ) (reason : BlockReason) :
    (schedulerBlock (s.setTcb t fun c => threadBlock c reason) t).Orderly n added :=
  ⟨h.toSettled.block reason, h.placed.block h.toSettled reason⟩

theorem Orderly.terminate (h : s.Orderly n added) (t : ℕ) :
    (schedulerTerminate s t).Orderly n added :=
  ⟨(withdrawn_schedulerTerminate h.rr_wf h.mlfq_wf t).1.settled h.toSettled,
    h.placed.schedulerTerminate h.mlfq_wf t⟩

theorem Orderly.schedCall {call : SchedCall} (h : s.Orderly n added)
    (hcall : CallAllowed s n call) : (schedCall s call).Orderly n (added ∪ addedBy [call]) := by
  have hnone : (∀ t, call ≠ .add t ∧ call ≠ .unblock t) → added ∪ addedBy [call] = added := by
    intro hne
    refine Set.union_eq_left.mpr fun t ht => ?_
    rcases ht with ht | ht
    · exact absurd (List.mem_singleton.mp ht).symm (hne t).1
    · exact absurd (List.mem_singleton.mp ht).symm (hne t).2
  cases call with
  | add t =>
    obtain ⟨ht, hnot, hcur, -⟩ := hcall
    refine ((h.subset Set.sdiff_subset).add ht hnot hcur).subset ?_
    rintro u (hu | hu)
    · exact Set.mem_insert_of_mem t hu
    · simp only [mem_addedBy, List.mem_singleton, SchedCall.add.injEq, reduceCtorEq,
        or_false] at hu
      exact Or.inl hu
  | unblock t =>
    obtain ⟨ht, hnot, hcur, -⟩ := hcall
    refine (h.unblock ht hnot hcur).subset ?_
    rintro u (hu | hu)
    · exact Set.mem_insert_of_mem t hu
    · simp only [mem_addedBy, List.mem_singleton, SchedCall.unblock.injEq,
        reduceCtorEq, false_or] at hu
      exact Or.inl hu
  | next =>
    rw [hnone fun _ => ⟨nofun, nofun⟩]
    exact h.next
  | block t reason =>
    rw [hnone fun _ => ⟨nofun, nofun⟩]
    exact h.block t reason
  | terminate t =>
    rw [hnone fun _ => ⟨nofun, nofun⟩]
    exact h.terminate t
  | tick tick =>
    rw [hnone fun _ => ⟨nofun, nofun⟩]
    exact h.tick tick
  | priorityBoost tick =>
    rw [hnone fun _ => ⟨nofun, nofun⟩]
    exact h.priorityBoost tick

theorem Orderly.room_callPushes {call : SchedCall} (h : s.Orderly n added)
    (hcall : CallAllowed s n call) : Room (callPushes s call) := by
  cases call with
  | add t => exact h.room_add hcall.1 hcall.2.1
  | unblock t =>
    obtain ⟨ht, hnot, hcur, -⟩ := hcall
    exact (h.unblocked hnot hcur).room_add ht hnot
  | next => exact h.room_next
  | block t reason =>
    rw [callPushes]
    split_ifs with hcur
    · obtain ⟨w, -, -⟩ := withdrawn_blockCurrent h.toSound hcur (h.current_not_queued hcur) reason
      exact (w.sound h.toSound).room_next
    · exact room_nil
  | terminate t => exact room_nil
  | tick tick => exact h.room_tick tick
  | priorityBoost tick => exact h.room_priorityBoost tick

/-- How often a thread is in a ready queue, of either mode. -/
def occurrences (s : Scheduler) (t : ℕ) : ℕ :=
  s.rr.toList.count t + (s.mlfq 0).toList.count t + (s.mlfq 1).toList.count t +
    (s.mlfq 2).toList.count t

/-- The queues, the thread states and the current thread agree. -/
structure Consistent (s : Scheduler) (n : ℕ) (added : Set ℕ) : Prop where
  ready : ∀ t ∈ added, (s.tcb t).state = .ready → s.occurrences t = 1
  queued : ∀ t, s.occurrences t ≠ 0 → (s.tcb t).state = .ready
  stopped : ∀ t, (s.tcb t).state = .blocked ∨ (s.tcb t).state = .done → s.occurrences t = 0
  running : ∀ t < n, (s.tcb t).state = .running → s.currentThread = some t
  current : ∀ c, s.currentThread = some c → s.occurrences c = 0
  level : s.schedMode = .mlfq → ∀ l, 0 ≤ l ∧ l ≤ 2 → ∀ t ∈ (s.mlfq l).toList,
    (s.tcb t).mlfqLevel = l

theorem Placed.occurrences (h : s.Placed) (t : ℕ) : s.occurrences t = s.queued.count t := by
  unfold Scheduler.occurrences
  cases hm : s.schedMode with
  | rr =>
    rw [queued_rr hm]
    simp [h.mlfq_empty hm]
  | mlfq =>
    rw [queued_mlfq hm]
    simp [h.rr_empty hm, add_assoc]

theorem Orderly.consistent (h : s.Orderly n added) : s.Consistent n added := by
  have hmem : ∀ t, s.occurrences t ≠ 0 ↔ t ∈ s.queued := fun t => by
    rw [h.placed.occurrences, Multiset.count_ne_zero]
  have hzero : ∀ t, t ∉ s.queued → s.occurrences t = 0 := fun t ht =>
    not_not.mp ((hmem t).not.mpr ht)
  refine ⟨fun t ha ht => ?_, fun t ht => h.ready t ((hmem t).mp ht), fun t ht => hzero t fun hq => ?_,
    fun t ht hr => (h.running t ht hr).1, fun c hc => hzero c (h.current_not_queued hc),
    fun _ => h.placed.level⟩
  · rw [h.placed.occurrences]
    exact Multiset.count_eq_one_of_mem h.nodup (h.mem_queued t ha ht)
  · rw [h.ready t hq] at ht
    rcases ht with ht | ht <;> cases ht

end Scheduler

variable {s₀ : Scheduler} {mode : SchedMode} {n : ℕ}

theorem schedRun_append (s₀ : Scheduler) (mode : SchedMode) (calls : List SchedCall)
    (call : SchedCall) :
    schedRun s₀ mode (calls ++ [call]) = schedCall (schedRun s₀ mode calls) call := by
  rw [schedRun, List.foldl_append]
  rfl

theorem RunAllowed.of_prefix {calls pre : List SchedCall} (h : RunAllowed s₀ mode n calls)
    (hpre : pre <+: calls) : RunAllowed s₀ mode n pre :=
  fun pre' call hcall => h pre' call (hcall.trans hpre)

theorem RunAllowed.append {calls : List SchedCall} (h : RunAllowed s₀ mode n calls)
    (call : SchedCall) (hcall : CallAllowed (schedRun s₀ mode calls) n call) :
    RunAllowed s₀ mode n (calls ++ [call]) := by
  intro pre call' hpre
  rcases List.prefix_concat_iff.mp hpre with he | hpre
  · obtain ⟨rfl, hc⟩ := List.append_inj' he rfl
    rwa [List.singleton_inj.mp hc]
  · exact h pre call' hpre

theorem orderly_schedRun (hn : n ≤ maxThreads)
    (hinit : ∀ t < n, (s₀.tcb t).state ≠ .running ∧ (s₀.tcb t).mlfqLevel = -1)
    {calls : List SchedCall} (hcalls : RunAllowed s₀ mode n calls) :
    (schedRun s₀ mode calls).Orderly n (addedBy calls) := by
  induction calls using List.reverseRecOn with
  | nil =>
    have hnone : addedBy [] = ∅ := by simp [addedBy]
    rw [hnone]
    exact Scheduler.orderly_schedulerInit s₀ mode hn hinit
  | append_singleton calls call ih =>
    have h := ih (hcalls.of_prefix (List.prefix_append calls [call]))
    rw [schedRun_append, addedBy_append]
    exact h.schedCall (hcalls calls call List.prefix_rfl)

/-- The ready queues stay consistent with the threads, and no thread is refused for lack of
room. -/
theorem queues_schedRun (hn : n ≤ maxThreads)
    (hinit : ∀ t < n, (s₀.tcb t).state ≠ .running ∧ (s₀.tcb t).mlfqLevel = -1)
    {calls : List SchedCall} (hcalls : RunAllowed s₀ mode n calls) :
    (schedRun s₀ mode calls).Consistent n (addedBy calls) ∧
      ∀ pre call, pre ++ [call] <+: calls → Room (callPushes (schedRun s₀ mode pre) call) := by
  refine ⟨(orderly_schedRun hn hinit hcalls).consistent, fun pre call hpre => ?_⟩
  have h := orderly_schedRun hn hinit (hcalls.of_prefix ((List.prefix_append pre [call]).trans hpre))
  exact h.room_callPushes (hcalls pre call hpre)

/-- Ready threads that have no queue level yet. -/
def freshScheduler : Scheduler where
  tcb := fun _ => { (default : TCB) with state := .ready, mlfqLevel := -1 }
  rr := ⟨fun _ => 0, 0, 0⟩
  mlfq := fun _ => ⟨fun _ => 0, 0, 0⟩
  currentThread := none
  schedMode := .rr
  quantumRemaining := 0
  contextSwitches := 0
  currentQueue := 0
  lastBoostTick := 0
  priorityBoostCount := 0
  threadTable := []

/-- Two threads in feedback mode : the first is dispatched, blocks and comes back. -/
theorem queues_schedRun_twoThreads :
    let calls : List SchedCall := [.add 0, .add 1, .next, .tick 1, .block 0 .ioBlock, .unblock 0]
    (schedRun freshScheduler .mlfq calls).Consistent 2 (addedBy calls) ∧
      (∀ pre call, pre ++ [call] <+: calls →
        Room (callPushes (schedRun freshScheduler .mlfq pre) call)) ∧
      (schedRun freshScheduler .mlfq calls).occurrences 0 = 1 := by
  have h₀ : RunAllowed freshScheduler .mlfq 2 [] := fun pre call hpre =>
    absurd (List.prefix_nil.mp hpre) (List.append_ne_nil_of_right_ne_nil pre (by simp))
  have h₁ := h₀.append (.add 0) (by decide)
  have h₂ := h₁.append (.add 1) (by decide)
  have h₃ := h₂.append (.next) (by decide)
  have h₄ := h₃.append (.tick 1) (by decide)
  have h₅ := h₄.append (.block 0 .ioBlock) (by decide)
  have h₆ := h₅.append (.unblock 0) (by decide)
  obtain ⟨hc, hroom⟩ := queues_schedRun (by decide) (fun _ _ => ⟨ThreadState.noConfusion, rfl⟩) h₆
  exact ⟨hc, hroom, by decide⟩

end FleetOS
