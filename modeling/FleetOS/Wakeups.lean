import FleetOS.Kernel
import FleetOS.ReadyQueues

/-!
# Blocking and waking threads

What the functions of the kernel that block, wake and end threads do. To the rest of the
kernel they are `Steady` : only the scheduler, the states of processes and the deadlock phases
change, and no process arrives or ends. What only keeps the tables and lets no process arrive
or end is `Calm`.

To the scheduler a wake-up is an `Enqueue` of the threads it names, which become ready while
every other TCB stays (`enqueue_unblockOwned`, `enqueue_wakeThreads`, `enqueue_applyWoken`),
and the end of a process leaves its threads done where they are (`ended_endThreads`).
-/

namespace FleetOS

namespace Scheduler

/-- From `s` to `s'` the threads `woken` were queued, and no other TCB changed. -/
structure Enqueue (s s' : Scheduler) (n : ℕ) (woken : Set ℕ) : Prop where
  frame : Frame s s' n woken
  current : s'.currentThread = s.currentThread
  same : ∀ u ∉ woken, s'.tcb u = s.tcb u
  ready : ∀ u ∈ woken, (s'.tcb u).state = .ready

variable {s s' s'' : Scheduler} {n t : ℕ}

theorem Enqueue.refl (h : s.Disciplined n) : Enqueue s s n ∅ :=
  ⟨.refl h, rfl, fun _ _ => rfl, fun _ hu => absurd hu (Set.notMem_empty _)⟩

theorem Enqueue.trans {a b : Set ℕ} (h : Enqueue s s' n a) (h' : Enqueue s' s'' n b) :
    Enqueue s s'' n (a ∪ b) := by
  refine ⟨(h.frame.mono Set.subset_union_left).trans (h'.frame.mono Set.subset_union_right),
    h'.current.trans h.current, fun u hu => ?_, fun u hu => ?_⟩
  · rw [Set.mem_union, not_or] at hu
    exact (h'.same u hu.2).trans (h.same u hu.1)
  · by_cases hb : u ∈ b
    · exact h'.ready u hb
    · rw [h'.same u hb]
      exact h.ready u (hu.resolve_right hb)

theorem Enqueue.congr {a b : Set ℕ} (h : Enqueue s s' n a) (hab : ∀ u, u ∈ a ↔ u ∈ b) :
    Enqueue s s' n b :=
  Set.ext hab ▸ h

theorem enqueue_add (h : s.Disciplined n) (ht : t < n) (hp : s.Parked t)
    (hcur : s.currentThread ≠ some t) : Enqueue s (schedulerAdd s t) n {t} := by
  have ha := added h.toSound ht hp.1
  refine ⟨ha.frame (ha.disciplined h ht hp.1 hcur), ha.current, fun u hu => ?_, fun u hu => ?_⟩
  · rw [ha.tcb, if_neg (Set.mem_singleton_iff.not.mp hu)]
  · rw [Set.mem_singleton_iff.mp hu, ha.tcb, if_pos rfl]

/-- A change to a TCB that leaves the state and the level alone. -/
theorem Enqueue.update {a : Set ℕ} (h : Enqueue s s' n a) (ht : t ∈ a) {f : TCB → TCB}
    (hid : (f (s'.tcb t)).ident = (s'.tcb t).ident) (hs : (f (s'.tcb t)).state = (s'.tcb t).state)
    (hl : (f (s'.tcb t)).mlfqLevel = (s'.tcb t).mlfqLevel) : Enqueue s (s'.setTcb t f) n a := by
  have hf := frame_setTcb_of_kernel h.frame.disciplined hid hs hl
  refine ⟨h.frame.trans (hf.mono (Set.singleton_subset_iff.mpr ht)), h.current, fun u hu => ?_,
    fun u hu => ?_⟩
  · have hut : u ≠ t := fun he => hu (he ▸ ht)
    rw [setTcb_of_ne _ hut]
    exact h.same u hu
  · rw [setTcb_tcb]
    split_ifs with hut
    · rw [hs, ← hut]
      exact h.ready u hu
    · exact h.ready u hu

theorem enqueue_unblock (h : s.Disciplined n) (ht : t < n) (hb : (s.tcb t).state = .blocked) :
    Enqueue s (schedulerUnblock (s.setTcb t threadUnblock) t) n {t} := by
  obtain ⟨hq, hcur⟩ := h.blocked hb
  have hst : (threadUnblock (s.tcb t)).state = .ready := by simp [threadUnblock, hb]
  have hlv : (threadUnblock (s.tcb t)).mlfqLevel = (s.tcb t).mlfqLevel := by
    simp [threadUnblock, hb]
  have hd : (s.setTcb t threadUnblock).Disciplined n :=
    h.setTcb (fun hm => absurd hm hq) (fun hr => by rw [hst] at hr; cases hr)
      (fun hc => absurd hc hcur) fun _ => hlv ▸ h.level t ht
  have hf : Frame s (s.setTcb t threadUnblock) n {t} := frame_setTcb hd (ident_threadUnblock _)
  have hp : (s.setTcb t threadUnblock).Parked t :=
    ⟨hq, fun hr => by rw [setTcb_self, hst] at hr; cases hr⟩
  have he := enqueue_add hd ht hp hcur
  refine ⟨hf.trans he.frame, he.current, fun u hu => ?_, he.ready⟩
  exact (he.same u hu).trans (setTcb_of_ne s (Set.mem_singleton_iff.not.mp hu) _)

/-- From `s` to `s'` the threads `ended` are marked done where they are. -/
structure Ended (s s' : Scheduler) (n : ℕ) (ended : Set ℕ) : Prop where
  frame : Frame s s' n ended
  current : s'.currentThread = s.currentThread
  queued : s'.queued = s.queued
  same : ∀ u ∉ ended, s'.tcb u = s.tcb u
  done : ∀ u ∈ ended, (s'.tcb u).state = .done

theorem Ended.refl (h : s.Disciplined n) : Ended s s n ∅ :=
  ⟨.refl h, rfl, rfl, fun _ _ => rfl, fun _ hu => absurd hu (Set.notMem_empty _)⟩

theorem Ended.trans {a b : Set ℕ} (h : Ended s s' n a) (h' : Ended s' s'' n b) :
    Ended s s'' n (a ∪ b) := by
  refine ⟨(h.frame.mono Set.subset_union_left).trans (h'.frame.mono Set.subset_union_right),
    h'.current.trans h.current, h'.queued.trans h.queued, fun u hu => ?_, fun u hu => ?_⟩
  · rw [Set.mem_union, not_or] at hu
    exact (h'.same u hu.2).trans (h.same u hu.1)
  · by_cases hb : u ∈ b
    · exact h'.done u hb
    · rw [h'.same u hb]
      exact h.done u (hu.resolve_right hb)

theorem ended_markDone (h : s.Disciplined n) (t : ℕ) :
    Ended s (s.setTcb t fun c => { c with state := .done }) n {t} := by
  refine ⟨frame_markDone h t, rfl, rfl, fun u hu => ?_, fun u hu => ?_⟩
  · exact setTcb_of_ne s (Set.mem_singleton_iff.not.mp hu) _
  · rw [Set.mem_singleton_iff.mp hu, setTcb_self]

end Scheduler

/-! ## The rest of the kernel -/

/-- From `k` to `k'`, within one tick, the tables keep their sizes and pids, and no process
arrives or ends. -/
structure Calm (k k' : Kernel) : Prop where
  config : k'.config = k.config
  currentTick : k'.currentTick = k.currentTick
  threadCount : k'.threadCount = k.threadCount
  procCount : k'.procCount = k.procCount
  pid : ∀ p, (k'.procs p).pid = (k.procs p).pid
  new : ∀ p, (k'.procs p).state = .new ↔ (k.procs p).state = .new
  terminated : ∀ p, (k'.procs p).state = .terminated ↔ (k.procs p).state = .terminated

namespace Calm

theorem trans {k k' k'' : Kernel} (h : Calm k k') (h' : Calm k' k'') : Calm k k'' :=
  ⟨h'.config.trans h.config, h'.currentTick.trans h.currentTick,
    h'.threadCount.trans h.threadCount, h'.procCount.trans h.procCount,
    fun p => (h'.pid p).trans (h.pid p), fun p => (h'.new p).trans (h.new p),
    fun p => (h'.terminated p).trans (h.terminated p)⟩

/-- Only what is not in the tables changes. -/
theorem of_rest {k k' : Kernel} (h : k' = { k with
    sched := k'.sched, pending := k'.pending, pendingCount := k'.pendingCount,
    sensorBuf := k'.sensorBuf, ioSeq := k'.ioSeq, mem := k'.mem, fs := k'.fs, graph := k'.graph,
    deadlockPhase := k'.deadlockPhase }) : Calm k k' := by
  rw [h]
  exact ⟨rfl, rfl, rfl, rfl, fun _ => rfl, fun _ => Iff.rfl, fun _ => Iff.rfl⟩

theorem refl (k : Kernel) : Calm k k := of_rest rfl

theorem findProc {k k' : Kernel} (h : Calm k k') (pid : ℤ) : k'.findProc pid = k.findProc pid := by
  unfold Kernel.findProc FleetOS.findProc
  simp only [h.procCount, h.pid]

end Calm

/-- From `k` to `k'` only the scheduler, the states of processes and the deadlock phases
changed, and no process arrived or ended. -/
structure Steady (k k' : Kernel) : Prop where
  rest : k' = { k with sched := k'.sched, procs := k'.procs, deadlockPhase := k'.deadlockPhase }
  procs : ∀ p, k'.procs p = { k.procs p with
    state := (k'.procs p).state, blockedReason := (k'.procs p).blockedReason }
  new : ∀ p, (k'.procs p).state = .new ↔ (k.procs p).state = .new
  terminated : ∀ p, (k'.procs p).state = .terminated ↔ (k.procs p).state = .terminated

namespace Steady

theorem refl (k : Kernel) : Steady k k :=
  ⟨rfl, fun _ => rfl, fun _ => Iff.rfl, fun _ => Iff.rfl⟩

theorem trans {k k' k'' : Kernel} (h : Steady k k') (h' : Steady k' k'') : Steady k k'' := by
  refine ⟨?_, fun p => ?_, fun p => (h'.new p).trans (h.new p),
    fun p => (h'.terminated p).trans (h.terminated p)⟩
  · rw [h'.rest, h.rest]
  · rw [h'.procs p, h.procs p]

variable {k k' : Kernel} (h : Steady k k')
include h

theorem config : k'.config = k.config := by rw [h.rest]
theorem currentTick : k'.currentTick = k.currentTick := by rw [h.rest]
theorem procCount : k'.procCount = k.procCount := by rw [h.rest]
theorem threadCount : k'.threadCount = k.threadCount := by rw [h.rest]
theorem pending : k'.pending = k.pending := by rw [h.rest]
theorem pendingCount : k'.pendingCount = k.pendingCount := by rw [h.rest]
theorem sensorBuf : k'.sensorBuf = k.sensorBuf := by rw [h.rest]
theorem mem : k'.mem = k.mem := by rw [h.rest]
theorem graph : k'.graph = k.graph := by rw [h.rest]

theorem pid (p : ℕ) : (k'.procs p).pid = (k.procs p).pid := by rw [h.procs]

theorem calm : Calm k k' :=
  ⟨h.config, h.currentTick, h.threadCount, h.procCount, h.pid, h.new, h.terminated⟩

end Steady

theorem steady_foldl {α : Type*} {f : Kernel → α → Kernel} (hf : ∀ k a, Steady k (f k a)) :
    ∀ (l : List α) (k : Kernel), Steady k (l.foldl f k)
  | [], k => Steady.refl k
  | a :: l, k => (hf k a).trans (steady_foldl hf l (f k a))

theorem steady_sched (k : Kernel) (s : Scheduler) : Steady k { k with sched := s } :=
  ⟨rfl, fun _ => rfl, fun _ => Iff.rfl, fun _ => Iff.rfl⟩

/-- A process that is neither new nor terminated gets another state. -/
theorem steady_setProc {k : Kernel} {p : ℕ} {st : ProcessState} {reason : BlockReason}
    (hp : ¬((k.procs p).state = .terminated ∨ (k.procs p).state = .new))
    (hst : st ≠ .terminated ∧ st ≠ .new) :
    Steady k (k.setProc p fun c => { pcbSetState c st with blockedReason := reason }) := by
  have hself : (k.setProc p fun c => { pcbSetState c st with blockedReason := reason }).procs p =
      { k.procs p with state := st, blockedReason := reason } := Function.update_self _ _ _
  have hother : ∀ q, q ≠ p → (k.setProc p fun c =>
      { pcbSetState c st with blockedReason := reason }).procs q = k.procs q :=
    fun q hq => Function.update_of_ne hq _ _
  rw [not_or] at hp
  refine ⟨rfl, fun q => ?_, fun q => ?_, fun q => ?_⟩ <;> by_cases hq : q = p
  · rw [hq, hself]
  · rw [hother q hq]
  · rw [hq, hself]
    exact iff_of_false hst.2 hp.2
  · rw [hother q hq]
  · rw [hq, hself]
    exact iff_of_false hst.1 hp.1
  · rw [hother q hq]

theorem steady_syncPcb (k : Kernel) (p : ℕ) : Steady k (syncPcbStateFromThreads k p) := by
  unfold syncPcbStateFromThreads
  dsimp only
  split_ifs with hp
  · exact .refl k
  · exact .refl k
  all_goals exact steady_setProc hp (by decide)

theorem steady_syncOwner (k : Kernel) (t : ℕ) : Steady k (syncOwner k t) := by
  unfold syncOwner
  split
  · exact .refl k
  · exact steady_syncPcb k _

theorem steady_blockThread (k : Kernel) (t : ℕ) (reason : BlockReason) :
    Steady k (blockThread k t reason) := by
  unfold blockThread
  split_ifs
  · exact .refl k
  · exact (steady_sched k _).trans (steady_syncOwner _ t)

theorem steady_unblockThread (k : Kernel) (t : ℕ) : Steady k (unblockThread k t) :=
  (steady_sched k _).trans (steady_syncOwner _ t)

theorem steady_unblockOwned (k : Kernel) (pid : ℤ) (reason : BlockReason) :
    Steady k (unblockOwned k pid reason) := by
  refine steady_foldl (fun k t => ?_) _ k
  split_ifs
  · exact steady_unblockThread k t
  · exact .refl k

theorem steady_wakeThreads (k : Kernel) (ids : List ℤ) : Steady k (wakeThreads k ids) := by
  refine steady_foldl (fun k id => ?_) _ k
  split
  · exact .refl k
  · split_ifs
    · exact steady_unblockThread k _
    · exact .refl k

theorem steady_deadlockWakeCallback (k : Kernel) (pid : ℤ) :
    Steady k (deadlockWakeCallback k pid) := by
  refine steady_foldl (fun k t => ?_) _ k
  split_ifs
  · refine (steady_unblockThread k t).trans ?_
    exact ⟨rfl, fun _ => rfl, fun _ => Iff.rfl, fun _ => Iff.rfl⟩
  · exact .refl k

theorem steady_applyWoken (k : Kernel) (r : ResourceGraph × List ℤ) :
    Steady { k with graph := r.1 } (applyWoken k r) :=
  steady_foldl steady_deadlockWakeCallback r.2 _

theorem steady_endThreads (k : Kernel) (pid : ℤ) : Steady k (endThreads k pid) := by
  refine steady_foldl (fun k t => ?_) _ k
  split_ifs
  · exact steady_sched k _
  · exact .refl k

theorem steady_snapshotSync (k : Kernel) : Steady k (snapshotSync k) := by
  unfold snapshotSync
  split_ifs
  · refine steady_foldl (fun k p => ?_) _ k
    split_ifs
    · exact .refl k
    · exact steady_syncPcb k p
  · exact .refl k

/-! ## The scheduler -/

open Scheduler (Frame Enqueue Ended)

@[simp] theorem sched_syncPcb (k : Kernel) (p : ℕ) :
    (syncPcbStateFromThreads k p).sched = k.sched := by
  unfold syncPcbStateFromThreads
  dsimp only
  split_ifs <;> rfl

@[simp] theorem sched_syncOwner (k : Kernel) (t : ℕ) : (syncOwner k t).sched = k.sched := by
  unfold syncOwner
  split
  · rfl
  · exact sched_syncPcb k _

theorem sched_blockThread {k : Kernel} {t : ℕ} (h : (k.tcb t).state = .running)
    (reason : BlockReason) : (blockThread k t reason).sched =
      schedulerBlock (k.sched.setTcb t fun c => threadBlock c reason) t := by
  rw [blockThread, if_neg (ne_of_eq_of_ne h (by decide))]
  exact sched_syncOwner _ t

/-- The thread that has the processor blocks. -/
theorem frame_blockThread {k : Kernel} {n t : ℕ} (h : k.sched.Disciplined n)
    (hcur : k.sched.currentThread = some t) (hrun : (k.tcb t).state = .running)
    (reason : BlockReason) :
    Frame k.sched (blockThread k t reason).sched n {t} ∧
      ((blockThread k t reason).tcb t).state = .blocked ∧
      ((blockThread k t reason).tcb t).waitReason = reason := by
  obtain ⟨hf, -, hb, hw⟩ :=
    Scheduler.frame_schedulerBlock h hcur reason (sched_blockThread hrun reason)
  exact ⟨hf, hb, hw⟩

theorem sched_unblockThread (k : Kernel) (t : ℕ) :
    (unblockThread k t).sched = schedulerUnblock (k.sched.setTcb t threadUnblock) t :=
  sched_syncOwner _ t

theorem enqueue_unblockThread {k : Kernel} {n t : ℕ} (h : k.sched.Disciplined n) (ht : t < n)
    (hb : (k.tcb t).state = .blocked) : Enqueue k.sched (unblockThread k t).sched n {t} := by
  rw [sched_unblockThread]
  exact Scheduler.enqueue_unblock h ht hb

/-- A loop over threads that queues those of which `C` holds. -/
theorem enqueue_foldl {f : Kernel → ℕ → Kernel} {C : TCB → Prop} [DecidablePred C] {n : ℕ}
    (hf : ∀ k t, k.sched.Disciplined n → t < n → C (k.tcb t) → k.sched.Parked t →
      k.sched.currentThread ≠ some t → Enqueue k.sched (f k t).sched n {t}) :
    ∀ (l : List ℕ) (k : Kernel), k.sched.Disciplined n → l.Nodup →
      (∀ t ∈ l, t < n ∧ (C (k.tcb t) → k.sched.Parked t ∧ k.sched.currentThread ≠ some t)) →
      Enqueue k.sched (l.foldl (fun k t => if C (k.tcb t) then f k t else k) k).sched n
        {u | u ∈ l ∧ C (k.tcb u)}
  | [], k, hd, _, _ => (Enqueue.refl hd).congr fun u => by simp
  | t :: l, k, hd, hnd, hl => by
    obtain ⟨hnot, hnd⟩ := List.nodup_cons.mp hnd
    obtain ⟨htn, htC⟩ := hl t List.mem_cons_self
    rw [List.foldl_cons]
    by_cases hC : C (k.tcb t)
    · rw [if_pos hC]
      have he := hf k t hd htn hC (htC hC).1 (htC hC).2
      have hne : ∀ u ∈ l, u ≠ t := fun u hu hut => hnot (hut ▸ hu)
      have hsame : ∀ u ∈ l, (f k t).tcb u = k.tcb u := fun u hu =>
        he.same u (Set.mem_singleton_iff.not.mpr (hne u hu))
      have ih := enqueue_foldl hf l (f k t) he.frame.disciplined hnd
        fun u hu => ⟨(hl u (List.mem_cons_of_mem t hu)).1, fun hCu => by
          rw [hsame u hu] at hCu
          obtain ⟨hp, hcur⟩ := (hl u (List.mem_cons_of_mem t hu)).2 hCu
          exact ⟨(he.frame.parked u (Set.mem_singleton_iff.not.mpr (hne u hu)) hp).2,
            he.current ▸ hcur⟩⟩
      refine (he.trans ih).congr fun u => ?_
      simp only [Set.mem_union, Set.mem_singleton_iff, Set.mem_ofPred_eq, List.mem_cons]
      constructor
      · rintro (rfl | ⟨hu, hCu⟩)
        · exact ⟨Or.inl rfl, hC⟩
        · exact ⟨Or.inr hu, hsame u hu ▸ hCu⟩
      · rintro ⟨rfl | hu, hCu⟩
        · exact Or.inl rfl
        · exact Or.inr ⟨hu, (hsame u hu).symm ▸ hCu⟩
    · rw [if_neg hC]
      refine (enqueue_foldl hf l k hd hnd fun u hu => hl u (List.mem_cons_of_mem t hu)).congr
        fun u => ?_
      simp only [Set.mem_ofPred_eq, List.mem_cons]
      constructor
      · exact fun hu => ⟨Or.inr hu.1, hu.2⟩
      · rintro ⟨rfl | hu, hCu⟩
        · exact absurd hCu hC
        · exact ⟨hu, hCu⟩

/-- Woken threads are blocked, so in no queue. -/
theorem Scheduler.Disciplined.wakeable {k : Kernel} {n t : ℕ} (h : k.sched.Disciplined n)
    (hb : (k.tcb t).state = .blocked) : k.sched.Parked t ∧ k.sched.currentThread ≠ some t :=
  ⟨h.parked_of_blocked hb, (h.blocked hb).2⟩

theorem mem_threads {k : Kernel} {t : ℕ} : t ∈ k.threads ↔ t < k.threadCount := List.mem_range

theorem enqueue_unblockOwned {k : Kernel} (h : k.sched.Disciplined k.threadCount) (pid : ℤ)
    (reason : BlockReason) :
    Enqueue k.sched (unblockOwned k pid reason).sched k.threadCount
      {u | u < k.threadCount ∧ (k.tcb u).ownerPid = pid ∧ (k.tcb u).state = .blocked ∧
        (k.tcb u).waitReason = reason} := by
  have hl : ∀ t ∈ k.threads, t < k.threadCount ∧ ((k.tcb t).ownerPid = pid ∧
      (k.tcb t).state = .blocked ∧ (k.tcb t).waitReason = reason →
        k.sched.Parked t ∧ k.sched.currentThread ≠ some t) :=
    fun t ht => ⟨mem_threads.mp ht, fun hC => h.wakeable hC.2.1⟩
  have he := enqueue_foldl (f := unblockThread)
    (C := fun c => c.ownerPid = pid ∧ c.state = .blocked ∧ c.waitReason = reason)
    (fun k t hd ht hC _ _ => enqueue_unblockThread hd ht hC.2.1)
    k.threads k h List.nodup_range hl
  exact he.congr fun u => and_congr_left' mem_threads

theorem enqueue_deadlockWakeCallback {k : Kernel} (h : k.sched.Disciplined k.threadCount)
    (pid : ℤ) :
    Enqueue k.sched (deadlockWakeCallback k pid).sched k.threadCount
      {u | u < k.threadCount ∧ (k.tcb u).ownerPid = pid ∧ (k.tcb u).state = .blocked ∧
        (k.tcb u).waitReason = .resourceWait} := by
  have hl : ∀ t ∈ k.threads, t < k.threadCount ∧ ((k.tcb t).ownerPid = pid ∧
      (k.tcb t).state = .blocked ∧ (k.tcb t).waitReason = .resourceWait →
        k.sched.Parked t ∧ k.sched.currentThread ≠ some t) :=
    fun t ht => ⟨mem_threads.mp ht, fun hC => h.wakeable hC.2.1⟩
  have he := enqueue_foldl
    (f := fun k t =>
      let k := unblockThread k t
      let k := { k with
        deadlockPhase := Function.update k.deadlockPhase pid (k.deadlockPhase pid + 1) }
      k.setTcb t TCB.advance)
    (C := fun c => c.ownerPid = pid ∧ c.state = .blocked ∧ c.waitReason = .resourceWait)
    (fun k t hd ht hC _ _ =>
      (enqueue_unblockThread hd ht hC.2.1).update (Set.mem_singleton t) rfl rfl rfl)
    k.threads k h List.nodup_range hl
  exact he.congr fun u => and_congr_left' mem_threads

/-- The threads that a list of served waiters wakes. -/
def servedBy (k : Kernel) (pids : List ℤ) : Set ℕ :=
  {u | u < k.threadCount ∧ (k.tcb u).ownerPid ∈ pids ∧ (k.tcb u).state = .blocked ∧
    (k.tcb u).waitReason = .resourceWait}

theorem Scheduler.Frame.ownerPid {s s' : Scheduler} {n : ℕ} {a : Set ℕ} (h : Frame s s' n a)
    (u : ℕ) : (s'.tcb u).ownerPid = (s.tcb u).ownerPid :=
  congrArg (fun i => i.2.1) (h.ident u)

theorem Scheduler.Frame.tid {s s' : Scheduler} {n : ℕ} {a : Set ℕ} (h : Frame s s' n a)
    (u : ℕ) : (s'.tcb u).tid = (s.tcb u).tid :=
  congrArg Prod.fst (h.ident u)

theorem enqueue_callbacks : ∀ (pids : List ℤ) {k : Kernel},
    k.sched.Disciplined k.threadCount →
      Enqueue k.sched (pids.foldl deadlockWakeCallback k).sched k.threadCount (servedBy k pids)
  | [], k, h => (Enqueue.refl h).congr fun u => by simp [servedBy]
  | pid :: pids, k, h => by
    rw [List.foldl_cons]
    have he := enqueue_deadlockWakeCallback h pid
    have hn := (steady_deadlockWakeCallback k pid).threadCount
    have ih := enqueue_callbacks pids (k := deadlockWakeCallback k pid) (hn.symm ▸ he.frame.disciplined)
    rw [hn] at ih
    refine (he.trans ih).congr fun u => ?_
    simp only [Set.mem_union, Set.mem_ofPred_eq, servedBy, List.mem_cons, hn]
    by_cases hu : u < k.threadCount ∧ (k.tcb u).ownerPid = pid ∧ (k.tcb u).state = .blocked ∧
        (k.tcb u).waitReason = .resourceWait
    · exact iff_of_true (Or.inl hu) ⟨hu.1, Or.inl hu.2.1, hu.2.2⟩
    · have hsame : (deadlockWakeCallback k pid).tcb u = k.tcb u := he.same u hu
      rw [hsame]
      tauto

theorem enqueue_applyWoken {k : Kernel} (h : k.sched.Disciplined k.threadCount)
    (r : ResourceGraph × List ℤ) :
    Enqueue k.sched (applyWoken k r).sched k.threadCount (servedBy k r.2) :=
  enqueue_callbacks r.2 (k := { k with graph := r.1 }) h

/-! ### Ids of the buffer -/

theorem findThread_eq_some {k : Kernel} {id : ℤ} {t : ℕ} (h : findThread k id = some t) :
    t < k.threadCount ∧ (k.tcb t).tid = id := by
  obtain ⟨hp, hn, -⟩ := List.find?_range_eq_some.mp h
  exact ⟨List.mem_range.mp hn, by simpa using hp⟩

theorem findThread_congr {k k' : Kernel} (hn : k'.threadCount = k.threadCount)
    (htid : ∀ u, (k'.tcb u).tid = (k.tcb u).tid) (id : ℤ) : findThread k' id = findThread k id := by
  unfold findThread Kernel.threads
  simp only [hn, htid]

/-- The threads that a list of ids from the buffer wakes. -/
def resolvedBy (k : Kernel) (ids : List ℤ) : Set ℕ :=
  {u | (∃ id ∈ ids, findThread k id = some u) ∧ (k.tcb u).state = .blocked}

theorem resolvedBy_nil (k : Kernel) : resolvedBy k [] = ∅ := by
  refine Set.eq_empty_of_forall_notMem ?_
  rintro u ⟨⟨id, hid, -⟩, -⟩
  exact absurd hid List.not_mem_nil

theorem not_mem_resolvedBy {k : Kernel} {ids : List ℤ} (h : ids = []) (t : ℕ) :
    t ∉ resolvedBy k ids := by
  rw [h, resolvedBy_nil]
  exact Set.notMem_empty t

theorem enqueue_wakeThreads : ∀ (ids : List ℤ) {k : Kernel},
    k.sched.Disciplined k.threadCount →
      Enqueue k.sched (wakeThreads k ids).sched k.threadCount (resolvedBy k ids)
  | [], k, h => (Enqueue.refl h).congr fun u => by rw [resolvedBy_nil]
  | id :: ids, k, h => by
    set k₁ := wakeThreads k [id] with hk₁
    have hstep : wakeThreads k (id :: ids) = wakeThreads k₁ ids := rfl
    have he : Enqueue k.sched k₁.sched k.threadCount
        {u | findThread k id = some u ∧ (k.tcb u).state = .blocked} := by
      cases hf : findThread k id with
      | none =>
        have : k₁ = k := by simp [hk₁, wakeThreads, hf]
        rw [this]
        exact (Enqueue.refl h).congr fun u => by simp
      | some t =>
        by_cases hb : (k.tcb t).state = .blocked
        · have : k₁ = unblockThread k t := by simp [hk₁, wakeThreads, hf, hb]
          rw [this]
          refine (enqueue_unblockThread h (findThread_eq_some hf).1 hb).congr fun u => ?_
          simp only [Set.mem_singleton_iff, Set.mem_ofPred_eq, Option.some.injEq]
          exact ⟨fun hu => ⟨hu.symm, hu ▸ hb⟩, fun hu => hu.1.symm⟩
        · have : k₁ = k := by simp [hk₁, wakeThreads, hf, hb]
          rw [this]
          refine (Enqueue.refl h).congr fun u => iff_of_false (Set.notMem_empty u) ?_
          rintro ⟨hu, hbu⟩
          exact hb (Option.some.inj hu ▸ hbu)
    have hn : k₁.threadCount = k.threadCount := (steady_wakeThreads k [id]).threadCount
    have ih := enqueue_wakeThreads ids (k := k₁) (hn.symm ▸ he.frame.disciplined)
    rw [hn] at ih
    rw [hstep]
    refine (he.trans ih).congr fun u => ?_
    simp only [Set.mem_union, Set.mem_ofPred_eq, resolvedBy, List.exists_mem_cons_iff,
      findThread_congr hn he.frame.tid]
    by_cases hu : findThread k id = some u ∧ (k.tcb u).state = .blocked
    · exact iff_of_true (Or.inl hu) ⟨Or.inl hu.1, hu.2⟩
    · have hsame : k₁.tcb u = k.tcb u := he.same u hu
      rw [hsame]
      tauto

/-! ### The rounds of `wake_buffer_waiters` -/

/-- With an item in the buffer, the threads that wait for one are woken. -/
def wakeConsumers (k : Kernel) : Kernel :=
  if 0 < k.sensorBuf.count then
    let r := condBroadcast k.sensorBuf.notEmpty maxProcs
    wakeThreads { k with sensorBuf := { k.sensorBuf with notEmpty := r.1 } } r.2
  else k

/-- With room in the buffer, the threads that wait for it are woken. -/
def wakeProducers (k : Kernel) : Kernel :=
  if k.sensorBuf.count < ringBufferSize then
    let r := condBroadcast k.sensorBuf.notFull maxProcs
    wakeThreads { k with sensorBuf := { k.sensorBuf with notFull := r.1 } } r.2
  else k

/-- With the mutex free, the first thread that waits for it is woken. -/
def wakeLocker (k : Kernel) : Kernel :=
  if !k.sensorBuf.mutex.locked ∧ 0 < k.sensorBuf.mutex.waitQueue.length then
    let m := k.sensorBuf.mutex
    wakeThreads
      { k with sensorBuf := { k.sensorBuf with mutex := { m with waitQueue := m.waitQueue.tail } } }
      [m.waitQueue.headD 0]
  else k

theorem wakeBufferWaiters_eq (k : Kernel) :
    wakeBufferWaiters k = wakeLocker (wakeProducers (wakeConsumers k)) := rfl

/-! ### The end of the threads of a process -/

theorem ended_foldl (pid : ℤ) {n : ℕ} : ∀ (l : List ℕ) (k : Kernel), k.sched.Disciplined n →
    Ended k.sched
      (l.foldl (fun k t =>
        if (k.tcb t).ownerPid = pid ∧ (k.tcb t).state ≠ .done then
          k.setTcb t fun c => { c with state := .done }
        else k) k).sched n {u | u ∈ l ∧ (k.tcb u).ownerPid = pid}
  | [], k, h => by
    have he : {u | u ∈ [] ∧ (k.tcb u).ownerPid = pid} = (∅ : Set ℕ) := by
      ext u
      simp
    exact he ▸ Ended.refl h
  | t :: l, k, h => by
    rw [List.foldl_cons]
    set k₁ := if (k.tcb t).ownerPid = pid ∧ (k.tcb t).state ≠ .done then
      k.setTcb t fun c => { c with state := .done } else k with hk₁
    have hfirst : Ended k.sched k₁.sched n {u | u = t ∧ (k.tcb u).ownerPid = pid} := by
      rw [hk₁]
      by_cases hC : (k.tcb t).ownerPid = pid
      · have hset : {u | u = t ∧ (k.tcb u).ownerPid = pid} = ({t} : Set ℕ) := by
          ext u
          exact ⟨fun hu => hu.1, fun hu => ⟨hu, (Set.mem_singleton_iff.mp hu).symm ▸ hC⟩⟩
        rw [hset]
        split_ifs with hs
        · exact Scheduler.ended_markDone h t
        · have hdone : (k.tcb t).state = .done := not_not.mp fun hd => hs ⟨hC, hd⟩
          refine ⟨(Frame.refl h).mono (Set.empty_subset _), rfl, rfl, fun _ _ => rfl, fun u hu => ?_⟩
          rw [Set.mem_singleton_iff.mp hu]
          exact hdone
      · have hset : {u | u = t ∧ (k.tcb u).ownerPid = pid} = (∅ : Set ℕ) := by
          ext u
          exact iff_of_false (fun hu => hC (hu.1 ▸ hu.2)) (Set.notMem_empty u)
        rw [hset, if_neg fun hs => hC hs.1]
        exact Ended.refl h
    have howner : ∀ u, (k₁.tcb u).ownerPid = (k.tcb u).ownerPid := hfirst.frame.ownerPid
    have hset : {u | u ∈ t :: l ∧ (k.tcb u).ownerPid = pid} =
        {u | u = t ∧ (k.tcb u).ownerPid = pid} ∪ {u | u ∈ l ∧ (k₁.tcb u).ownerPid = pid} := by
      ext u
      simp only [List.mem_cons, Set.mem_union, Set.mem_ofPred_eq, howner]
      tauto
    rw [hset]
    exact hfirst.trans (ended_foldl pid l k₁ hfirst.frame.disciplined)

theorem ended_endThreads {k : Kernel} (h : k.sched.Disciplined k.threadCount) (pid : ℤ) :
    Ended k.sched (endThreads k pid).sched k.threadCount
      {u | u < k.threadCount ∧ (k.tcb u).ownerPid = pid} := by
  have he := ended_foldl pid k.threads k h
  simp only [mem_threads] at he
  exact he

end FleetOS
