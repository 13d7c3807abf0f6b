import FleetOS.BlockedThreads
import FleetOS.WakeRelations

/-!
# Process states

The state of a process is meant to be the one that its threads derive (`derivedState`). The kernel
brings it up to date where a thread of the process blocks (`refreshes_blockThread`) or is woken
(`Rewoken`). A dispatch, a preemption and the end of a thread leave it as it is
(`refreshes_of_frame`). So besides the arrivals and the snapshots a part of a tick brings the PCB of
a process up to date if its blocked threads become others, and else leaves it as it is
(`refreshes_machineStep`).
-/

namespace FleetOS

open Scheduler (Frame Enqueue Ended)

/-! ## The derived state -/

namespace Kernel

/-- The threads of process `p`. -/
def threadsOf (k : Kernel) (p : ℕ) : List ℕ :=
  k.threads.filter fun t => (k.tcb t).ownerPid = (k.procs p).pid

/-- What the threads of process `p` do, and what they wait for. -/
def threadStates (k : Kernel) (p : ℕ) : List (ThreadState × BlockReason) :=
  (k.threadsOf p).map fun t => ((k.tcb t).state, (k.tcb t).waitReason)

def blockedThreads (k : Kernel) (p : ℕ) : List ℕ :=
  (k.threadsOf p).filter fun t => (k.tcb t).state = .blocked

/-- Process `p` has a live thread. -/
def Live (k : Kernel) (p : ℕ) : Prop := ∃ c ∈ k.threadStates p, c.1 ≠ .done

/-- Process `p` has a ready thread and no running one. -/
def Waits (k : Kernel) (p : ℕ) : Prop :=
  (∃ c ∈ k.threadStates p, c.1 = .ready) ∧ ∀ c ∈ k.threadStates p, c.1 ≠ .running

/-- What the PCB says of process `p`. -/
def pcbState (k : Kernel) (p : ℕ) : ProcessState × BlockReason :=
  ((k.procs p).state, (k.procs p).blockedReason)

end Kernel

/-- The state of a process with these threads. -/
def derivedState (l : List (ThreadState × BlockReason)) : ProcessState × BlockReason :=
  if ∃ c ∈ l, c.1 = .running then (.running, .none)
  else if ∃ c ∈ l, c.1 = .ready then (.ready, .none)
  else (.blocked, ((l.find? fun c => c.1 = .blocked).map Prod.snd).getD .none)

instance (k : Kernel) (p : ℕ) : Decidable (k.Live p) :=
  inferInstanceAs (Decidable (∃ c ∈ k.threadStates p, c.1 ≠ .done))

instance (k : Kernel) (p : ℕ) : Decidable (k.Waits p) := inferInstanceAs (Decidable (_ ∧ _))

/-- The PCB of a process that has arrived and not ended says what its live threads derive. -/
def InStep (k : Kernel) (p : ℕ) : Prop :=
  (k.procs p).state ≠ .new → (k.procs p).state ≠ .terminated → k.Live p →
    k.pcbState p = derivedState (k.threadStates p)

theorem derivedState_ready_iff {l : List (ThreadState × BlockReason)} :
    (derivedState l).1 = .ready ↔ (∃ c ∈ l, c.1 = .ready) ∧ ∀ c ∈ l, c.1 ≠ .running := by
  unfold derivedState
  by_cases hrun : ∃ c ∈ l, c.1 = .running
  · rw [if_pos hrun]
    obtain ⟨c, hc, he⟩ := hrun
    exact iff_of_false (by decide) fun h => h.2 c hc he
  · rw [if_neg hrun]
    have hrun : ∀ c ∈ l, c.1 ≠ .running := fun c hc he => hrun ⟨c, hc, he⟩
    split_ifs with hready
    · exact iff_of_true rfl ⟨hready, hrun⟩
    · exact iff_of_false (by decide) fun h => hready h.1

/-! ## Bringing a PCB up to date -/

theorem threadsOf_congr {k k' : Kernel} {p : ℕ} (hn : k'.threadCount = k.threadCount)
    (hpid : (k'.procs p).pid = (k.procs p).pid)
    (ho : ∀ t, (k'.tcb t).ownerPid = (k.tcb t).ownerPid) : k'.threadsOf p = k.threadsOf p := by
  simp only [Kernel.threadsOf, Kernel.threads, hn, hpid, ho]

theorem mem_threadsOf {k : Kernel} {p t : ℕ} :
    t ∈ k.threadsOf p ↔ t < k.threadCount ∧ (k.tcb t).ownerPid = (k.procs p).pid := by
  simp [Kernel.threadsOf, mem_threads]

theorem mem_blockedThreads {k : Kernel} {p t : ℕ} :
    t ∈ k.blockedThreads p ↔ t ∈ k.threadsOf p ∧ (k.tcb t).state = .blocked := by
  simp [Kernel.blockedThreads]

theorem exists_threadStates {k : Kernel} {p : ℕ} {state : ThreadState} :
    (∃ c ∈ k.threadStates p, c.1 = state) ↔ ∃ t ∈ k.threadsOf p, (k.tcb t).state = state := by
  simp only [Kernel.threadStates, List.mem_map, exists_exists_and_eq_and]

theorem live_of_mem {k : Kernel} {p t : ℕ} (ht : t ∈ k.threadsOf p) (hs : (k.tcb t).state ≠ .done) :
    k.Live p :=
  ⟨_, List.mem_map_of_mem ht, hs⟩

/-- The PCB of a process with live threads is brought up to date. -/
theorem syncPcb_eq {k : Kernel} {p : ℕ} (hterm : (k.procs p).state ≠ .terminated)
    (hnew : (k.procs p).state ≠ .new) (hl : k.Live p) :
    syncPcbStateFromThreads k p = k.setProc p fun c => { c with
      state := (derivedState (k.threadStates p)).1
      blockedReason := (derivedState (k.threadStates p)).2 } := by
  have hlive : (k.threads.filter fun t =>
      (k.tcb t).ownerPid = (k.procs p).pid ∧ (k.tcb t).state ≠ .done) =
        (k.threadsOf p).filter fun t => (k.tcb t).state ≠ .done := by
    rw [Kernel.threadsOf, List.filter_filter]
    exact List.filter_congr fun t _ => by simp [and_comm]
  have hne : ((k.threadsOf p).filter fun t => (k.tcb t).state ≠ .done) ≠ [] := by
    obtain ⟨c, hc, hd⟩ := hl
    obtain ⟨t, ht, rfl⟩ := List.mem_map.mp hc
    exact List.ne_nil_of_mem (List.mem_filter.mpr ⟨ht, by simpa using hd⟩)
  have hany : ∀ state : ThreadState, state ≠ .done →
      ((((k.threadsOf p).filter fun t => (k.tcb t).state ≠ .done).any
        fun t => (k.tcb t).state = state) = true ↔ ∃ c ∈ k.threadStates p, c.1 = state) := by
    intro state hs
    simp only [exists_threadStates, List.any_eq_true, List.mem_filter, decide_eq_true_eq]
    exact exists_congr fun t => ⟨fun h => ⟨h.1.1, h.2⟩, fun h => ⟨⟨h.1, h.2 ▸ hs⟩, h.2⟩⟩
  have hfind : (((k.threadsOf p).filter fun t => (k.tcb t).state ≠ .done).find?
      fun t => (k.tcb t).state = .blocked).map (fun t => (k.tcb t).waitReason) =
        ((k.threadStates p).find? fun c => c.1 = .blocked).map Prod.snd := by
    rw [Kernel.threadStates, List.find?_map, Option.map_map, List.find?_filter]
    refine congrArg (Option.map _) (List.find?_congr fun t _ => ?_)
    cases hs : (k.tcb t).state <;> simp [hs]
  unfold syncPcbStateFromThreads
  dsimp only
  rw [if_neg (not_or.mpr ⟨hterm, hnew⟩), hlive, if_neg hne, hfind]
  simp only [hany .running (by decide), hany .ready (by decide), derivedState]
  split_ifs <;> rfl

theorem pcbState_syncPcb_of_ne (k : Kernel) {p q : ℕ} (h : p ≠ q) :
    (syncPcbStateFromThreads k q).pcbState p = k.pcbState p := by
  unfold syncPcbStateFromThreads
  dsimp only
  split_ifs
  all_goals simp only [Kernel.pcbState, setProc_of_ne _ h]

theorem threadsOf_syncPcb (k : Kernel) (p q : ℕ) :
    (syncPcbStateFromThreads k q).threadsOf p = k.threadsOf p := by
  have hs := steady_syncPcb k q
  refine threadsOf_congr hs.threadCount (hs.pid p) fun t => ?_
  rw [Kernel.tcb, sched_syncPcb]
  rfl

theorem threadStates_syncPcb (k : Kernel) (p q : ℕ) :
    (syncPcbStateFromThreads k q).threadStates p = k.threadStates p := by
  simp only [Kernel.threadStates, threadsOf_syncPcb, Kernel.tcb, sched_syncPcb]

theorem inStep_syncPcb (k : Kernel) (p : ℕ) : InStep (syncPcbStateFromThreads k p) p := by
  have hs := steady_syncPcb k p
  intro hnew hterm hlive
  rw [Kernel.Live, threadStates_syncPcb] at hlive
  rw [threadStates_syncPcb, syncPcb_eq (fun h => hterm ((hs.terminated p).mpr h))
    (fun h => hnew ((hs.new p).mpr h)) hlive, Kernel.pcbState, setProc_self]

theorem pcbState_syncPcb_of_new {k : Kernel} {p : ℕ} (h : (k.procs p).state = .new) :
    (syncPcbStateFromThreads k p).pcbState p = k.pcbState p := by
  rw [syncPcbStateFromThreads, if_pos (Or.inr h)]

/-- The PCB of the process of thread `t` is brought up to date, and no other. -/
theorem syncOwner_cases {k : Kernel} (hd : DistinctPids k.procs k.procCount) {p : ℕ}
    (hp : p < k.procCount) (t : ℕ) :
    ((k.tcb t).ownerPid = (k.procs p).pid ∧ syncOwner k t = syncPcbStateFromThreads k p) ∨
      ((k.tcb t).ownerPid ≠ (k.procs p).pid ∧ (syncOwner k t).pcbState p = k.pcbState p) := by
  unfold syncOwner
  by_cases ho : (k.tcb t).ownerPid = (k.procs p).pid
  · left
    have hf : k.findProc (k.tcb t).ownerPid = some p := ho ▸ findProc_pid hd hp
    exact ⟨ho, by rw [hf]⟩
  · right
    refine ⟨ho, ?_⟩
    cases hf : k.findProc (k.tcb t).ownerPid with
    | none => rfl
    | some q =>
      have hqp : p ≠ q := fun he => ho (he ▸ (findProc_some hf).2.symm)
      exact pcbState_syncPcb_of_ne k hqp

/-! ## What a part does to one process -/

/-- From `k` to `k'` nothing of process `p` changes. -/
structure Untouched (p : ℕ) (k k' : Kernel) : Prop where
  threadsOf : k'.threadsOf p = k.threadsOf p
  same : ∀ t ∈ k.threadsOf p,
    (k'.tcb t).state = (k.tcb t).state ∧ (k'.tcb t).waitReason = (k.tcb t).waitReason
  pcb : k'.pcbState p = k.pcbState p

/-- The PCB of process `p` is brought up to date where a thread of it blocks or is woken. -/
structure Refreshes (p : ℕ) (k k' : Kernel) : Prop where
  new : (k'.procs p).state = .new → k'.pcbState p = k.pcbState p
  changed : k'.blockedThreads p ≠ k.blockedThreads p → k'.Live p ∧ InStep k' p
  same : k'.blockedThreads p = k.blockedThreads p → k'.pcbState p = k.pcbState p

/-- The threads and the PCBs keep their states. -/
structure SameStates (k k' : Kernel) : Prop where
  threadCount : k'.threadCount = k.threadCount
  procCount : k'.procCount = k.procCount
  pid : ∀ q, (k'.procs q).pid = (k.procs q).pid
  owner : ∀ t, (k'.tcb t).ownerPid = (k.tcb t).ownerPid
  states : ∀ t, (k'.tcb t).state = (k.tcb t).state ∧ (k'.tcb t).waitReason = (k.tcb t).waitReason
  pcb : ∀ q, k'.pcbState q = k.pcbState q

variable {k k' k'' : Kernel} {p : ℕ}

theorem SameStates.of_procs (hs : k'.sched = k.sched) (hn : k'.threadCount = k.threadCount)
    (hc : k'.procCount = k.procCount) (hp : k'.procs = k.procs) : SameStates k k' := by
  have htcb : ∀ t, k'.tcb t = k.tcb t := fun t => by rw [Kernel.tcb, hs]; rfl
  refine ⟨hn, hc, fun q => by rw [hp], fun t => by rw [htcb], fun t => ?_, fun q => ?_⟩
  · rw [htcb]
    exact ⟨rfl, rfl⟩
  · rw [Kernel.pcbState, hp]
    rfl

theorem SameThreads.sameStates (h : SameThreads k k') : SameStates k k' := by
  have htcb : ∀ t, k'.tcb t = k.tcb t := fun t => by rw [Kernel.tcb, h.sched]; rfl
  refine ⟨h.threadCount, h.procCount, h.pid, fun t => by rw [htcb], fun t => ?_, fun q => ?_⟩
  · rw [htcb]
    exact ⟨rfl, rfl⟩
  · rw [Kernel.pcbState, h.state, h.reason]
    rfl

theorem Prepared.sameStates (h : Prepared k k') : SameStates k k' :=
  .of_procs h.sched h.threadCount (by rw [h.rest]) (by rw [h.rest])

/-- A change to a TCB that leaves the state alone. -/
theorem sameStates_setTcb (k : Kernel) (t : ℕ) {f : TCB → TCB}
    (ho : (f (k.tcb t)).ownerPid = (k.tcb t).ownerPid) (hs : (f (k.tcb t)).state = (k.tcb t).state)
    (hw : (f (k.tcb t)).waitReason = (k.tcb t).waitReason) : SameStates k (k.setTcb t f) := by
  have htcb : ∀ u, (k.setTcb t f).tcb u = if u = t then f (k.tcb t) else k.tcb u :=
    fun u => Scheduler.setTcb_tcb k.sched t u f
  refine ⟨rfl, rfl, fun _ => rfl, fun u => ?_, fun u => ?_, fun _ => rfl⟩
  all_goals
    rw [htcb]
    split_ifs with hu
  · rw [ho, hu]
  · rfl
  · rw [hs, hw, hu]
    exact ⟨rfl, rfl⟩
  · exact ⟨rfl, rfl⟩

theorem sameStates_execute (k : Kernel) (t : ℕ) : SameStates k (k.setTcb t threadExecute) := by
  refine sameStates_setTcb k t ?_ (state_threadExecute _) ?_
  all_goals
    unfold threadExecute
    split_ifs <;> rfl

theorem Refreshes.of_pcb (hp : k'.pcbState p = k.pcbState p)
    (hb : k'.blockedThreads p = k.blockedThreads p) : Refreshes p k k' :=
  ⟨fun _ => hp, fun hne => absurd hb hne, fun _ => hp⟩

namespace Untouched

theorem trans (h : Untouched p k k') (h' : Untouched p k' k'') : Untouched p k k'' :=
  ⟨h'.threadsOf.trans h.threadsOf, fun t ht =>
    ⟨(h'.same t (h.threadsOf.symm ▸ ht)).1.trans (h.same t ht).1,
      (h'.same t (h.threadsOf.symm ▸ ht)).2.trans (h.same t ht).2⟩, h'.pcb.trans h.pcb⟩

theorem of_sameStates (h : SameStates k k') (p : ℕ) : Untouched p k k' :=
  ⟨threadsOf_congr h.threadCount (h.pid p) h.owner, fun t _ => h.states t, h.pcb p⟩

theorem threadStates (h : Untouched p k k') : k'.threadStates p = k.threadStates p := by
  unfold Kernel.threadStates
  rw [h.threadsOf]
  exact List.map_congr_left fun t ht => Prod.ext (h.same t ht).1 (h.same t ht).2

theorem blockedThreads (h : Untouched p k k') : k'.blockedThreads p = k.blockedThreads p := by
  unfold Kernel.blockedThreads
  rw [h.threadsOf]
  exact List.filter_congr fun t ht => by rw [(h.same t ht).1]

theorem live (h : Untouched p k k') : k'.Live p ↔ k.Live p := by
  rw [Kernel.Live, h.threadStates]
  rfl

theorem state (h : Untouched p k k') : (k'.procs p).state = (k.procs p).state :=
  congrArg Prod.fst h.pcb

theorem inStep (h : Untouched p k k') (hi : InStep k p) : InStep k' p := by
  intro hnew hterm hlive
  rw [h.state] at hnew hterm
  rw [h.pcb, h.threadStates]
  exact hi hnew hterm (h.live.mp hlive)

theorem refreshes (h : Untouched p k k') : Refreshes p k k' := .of_pcb h.pcb h.blockedThreads

theorem refreshes_before (h : Untouched p k k') (hs : Refreshes p k' k'') : Refreshes p k k'' := by
  refine ⟨fun hnew => (hs.new hnew).trans h.pcb, fun hne => hs.changed ?_, fun he => ?_⟩
  · rwa [h.blockedThreads]
  · exact (hs.same (he.trans h.blockedThreads.symm)).trans h.pcb

end Untouched

theorem Refreshes.untouched (hs : Refreshes p k k') (h : Untouched p k' k'') : Refreshes p k k'' := by
  refine ⟨fun hnew => h.pcb.trans (hs.new (h.state ▸ hnew)), fun hne => ?_,
    fun he => h.pcb.trans (hs.same (h.blockedThreads ▸ he))⟩
  rw [h.blockedThreads] at hne
  exact ⟨h.live.mpr (hs.changed hne).1, h.inStep (hs.changed hne).2⟩

/-! ### Waking -/

/-- From `k` to `k'` threads are woken. -/
structure Rewoken (p : ℕ) (k k' : Kernel) : Prop where
  threadCount : k'.threadCount = k.threadCount
  procCount : k'.procCount = k.procCount
  pid : ∀ q, (k'.procs q).pid = (k.procs q).pid
  owner : ∀ t, (k'.tcb t).ownerPid = (k.tcb t).ownerPid
  blocked : ∀ t, (k'.tcb t).state = .blocked → (k.tcb t).state = .blocked
  new : (k'.procs p).state = .new → k'.pcbState p = k.pcbState p
  woken : Untouched p k k' ∨
    (∃ t ∈ k.threadsOf p, (k.tcb t).state = .blocked ∧ (k'.tcb t).state ≠ .blocked) ∧
      k'.Live p ∧ InStep k' p

namespace Rewoken

theorem distinctPids (h : Rewoken p k k') (hd : DistinctPids k.procs k.procCount) :
    DistinctPids k'.procs k'.procCount := by
  intro i hi j hj he
  rw [h.procCount] at hi hj
  rw [h.pid, h.pid] at he
  exact hd i hi j hj he

theorem trans (h : Rewoken p k k') (h' : Rewoken p k' k'') : Rewoken p k k'' := by
  have hof : k'.threadsOf p = k.threadsOf p := threadsOf_congr h.threadCount (h.pid p) h.owner
  refine ⟨h'.threadCount.trans h.threadCount, h'.procCount.trans h.procCount,
    fun q => (h'.pid q).trans (h.pid q), fun t => (h'.owner t).trans (h.owner t),
    fun t hb => h.blocked t (h'.blocked t hb), fun hnew => ?_, ?_⟩
  · have he := h'.new hnew
    have hs : (k''.procs p).state = (k'.procs p).state := congrArg Prod.fst he
    exact he.trans (h.new (hs ▸ hnew))
  · rcases h.woken with hu | ⟨⟨t, ht, hb, hn⟩, hl, hi⟩ <;>
      rcases h'.woken with hu' | ⟨⟨t', ht', hb', hn'⟩, hi'⟩
    · exact Or.inl (hu.trans hu')
    · exact Or.inr ⟨⟨t', hof ▸ ht', h.blocked t' hb', hn'⟩, hi'⟩
    · exact Or.inr ⟨⟨t, ht, hb, fun hs => hn (h'.blocked t hs)⟩, hu'.live.mpr hl, hu'.inStep hi⟩
    · exact Or.inr ⟨⟨t, ht, hb, fun hs => hn (h'.blocked t hs)⟩, hi'⟩

theorem of_sameStates (h : SameStates k k') (p : ℕ) : Rewoken p k k' :=
  ⟨h.threadCount, h.procCount, h.pid, h.owner, fun t hb => (h.states t).1 ▸ hb, fun _ => h.pcb p,
    Or.inl (.of_sameStates h p)⟩

theorem refreshes (h : Rewoken p k k') : Refreshes p k k' := by
  rcases h.woken with hu | ⟨⟨t, ht, hb, hn⟩, hi⟩
  · exact hu.refreshes
  · refine ⟨h.new, fun _ => hi, fun he => absurd (mem_blockedThreads.mpr ⟨ht, hb⟩) ?_⟩
    rw [← he, mem_blockedThreads]
    exact fun hm => hn hm.2

theorem of_unblock (hd : DistinctPids k.procs k.procCount) (hp : p < k.procCount) {t : ℕ}
    (ht : t < k.threadCount) (hb : (k.tcb t).state = .blocked) : Rewoken p k (unblockThread k t) := by
  obtain ⟨hother, l, hself⟩ := tcb_unblockThread hb
  have hs := steady_unblockThread k t
  have howner : ∀ u, ((unblockThread k t).tcb u).ownerPid = (k.tcb u).ownerPid := by
    intro u
    by_cases hu : u = t
    · rw [hu, hself]
    · rw [hother u hu]
  set k₁ : Kernel := { k with sched := schedulerUnblock (k.sched.setTcb t threadUnblock) t } with hk₁
  have he : unblockThread k t = syncOwner k₁ t := rfl
  have ho : (k₁.tcb t).ownerPid = (k.tcb t).ownerPid := by
    rw [← howner t, Kernel.tcb, Kernel.tcb, sched_unblockThread]
  have hblocked : ∀ u, ((unblockThread k t).tcb u).state = .blocked → (k.tcb u).state = .blocked := by
    intro u hu
    by_cases hut : u = t
    · exact hut ▸ hb
    · exact hother u hut ▸ hu
  rcases syncOwner_cases (k := k₁) hd hp t with ⟨ho', hsync⟩ | ⟨ho', hpcb⟩
  · have hmem : t ∈ k.threadsOf p := mem_threadsOf.mpr ⟨ht, ho.symm.trans ho'⟩
    refine ⟨hs.threadCount, hs.procCount, hs.pid, howner, hblocked, fun hnew => ?_,
      Or.inr ⟨⟨t, hmem, hb, by simp [hself]⟩, live_of_mem (t := t) ?_ (by simp [hself]), ?_⟩⟩
    · have hnew₁ : (k₁.procs p).state = .new := (hs.new p).mp hnew
      rw [he, hsync, pcbState_syncPcb_of_new hnew₁]
      rfl
    · rwa [threadsOf_congr hs.threadCount (hs.pid p) howner]
    · rw [he, hsync]
      exact inStep_syncPcb k₁ p
  · refine ⟨hs.threadCount, hs.procCount, hs.pid, howner, hblocked, fun _ => hpcb, Or.inl
      ⟨threadsOf_congr hs.threadCount (hs.pid p) howner, fun u hu => ?_, hpcb⟩⟩
    have hut : u ≠ t := fun hut => ho' (ho.trans (hut ▸ (mem_threadsOf.mp hu).2))
    rw [hother u hut]
    exact ⟨rfl, rfl⟩

end Rewoken

/-- `Rewoken` where the pids are distinct. -/
def Rewakes (p : ℕ) (k k' : Kernel) : Prop :=
  DistinctPids k.procs k.procCount → p < k.procCount → Rewoken p k k'

theorem threadRelation_rewakes (p : ℕ) : ThreadRelation (Rewakes p) where
  trans {k k' k''} h h' hd hp := by
    have hr := h hd hp
    exact hr.trans (h' (hr.distinctPids hd) (hr.procCount.symm ▸ hp))
  same h _ _ := .of_sameStates h.sameStates p

theorem wakeRelation_rewakes (p : ℕ) : WakeRelation (Rewakes p) :=
  ⟨threadRelation_rewakes p, fun ht hb hd hp => .of_unblock hd hp ht hb⟩

theorem callbackRelation_rewakes (p : ℕ) : CallbackRelation (Rewakes p) := by
  refine ⟨threadRelation_rewakes p, fun {k pid t} ht hb _ => ?_⟩
  set k₁ := unblockThread k t
  set k₂ : Kernel := { k₁ with
    deadlockPhase := Function.update k₁.deadlockPhase pid (k₁.deadlockPhase pid + 1) }
  have h₂ : SameStates k₁ k₂ := .of_procs rfl rfl rfl rfl
  have h₃ : Rewakes p k₂ (serveThread k pid t) :=
    fun _ _ => .of_sameStates (sameStates_setTcb k₂ t rfl rfl rfl) p
  exact (threadRelation_rewakes p).trans ((wakeRelation_rewakes p).unblock ht hb)
    ((threadRelation_rewakes p).trans (fun _ _ => .of_sameStates h₂ p) h₃)

/-! ### Blocking, dispatching and ending -/

/-- The scheduler gives the processor from one thread to another. -/
theorem blockedThreads_of_frame (hd : k.sched.Disciplined k.threadCount)
    (hn : k'.threadCount = k.threadCount) (hpid : (k'.procs p).pid = (k.procs p).pid)
    {touched : Set ℕ} (hf : Frame k.sched k'.sched k.threadCount touched)
    (ht : ∀ t ∈ k.threadsOf p, t ∈ touched →
      ((k'.tcb t).state = .blocked ↔ (k.tcb t).state = .blocked)) :
    k'.blockedThreads p = k.blockedThreads p := by
  unfold Kernel.blockedThreads
  rw [threadsOf_congr hn hpid hf.ownerPid]
  refine List.filter_congr fun t hmem => decide_eq_decide.mpr ?_
  by_cases htt : t ∈ touched
  · exact ht t hmem htt
  · constructor <;> intro hb
    · have hs : (k'.tcb t).state = (k.tcb t).state := hf.stopped t htt (Or.inl hb)
      exact hs.symm.trans hb
    · have hs : k'.tcb t = k.tcb t := (hf.parked t htt (hd.parked_of_blocked hb)).1
      rw [hs, hb]

/-- The running thread blocks. -/
theorem refreshes_blockThread (hd : k.sched.Disciplined k.threadCount)
    (hpids : DistinctPids k.procs k.procCount) (hp : p < k.procCount) {t : ℕ}
    (hrun : k.sched.Yields t) (reason : BlockReason) : Refreshes p k (blockThread k t reason) := by
  have hnb : (k.tcb t).state ≠ .blocked := ne_of_eq_of_ne hrun.2 (by decide)
  obtain ⟨hf, hb, -⟩ := frame_blockThread hd hrun.1 hrun.2 reason
  have hs := steady_blockThread k t reason
  set k₁ : Kernel := { k with
    sched := schedulerBlock (k.sched.setTcb t fun c => threadBlock c reason) t }
  have he : blockThread k t reason = syncOwner k₁ t := if_neg hnb
  have ho : (k₁.tcb t).ownerPid = (k.tcb t).ownerPid := by
    have ho : ((blockThread k t reason).tcb t).ownerPid = (k.tcb t).ownerPid := hf.ownerPid t
    rwa [he, Kernel.tcb, sched_syncOwner] at ho
  have hof : (blockThread k t reason).threadsOf p = k.threadsOf p :=
    threadsOf_congr hs.threadCount (hs.pid p) hf.ownerPid
  rcases syncOwner_cases (k := k₁) hpids hp t with ⟨ho', hsync⟩ | ⟨ho', hpcb⟩
  · have hmem : t ∈ k.threadsOf p := mem_threadsOf.mpr ⟨hd.current_lt t hrun.1, ho.symm.trans ho'⟩
    refine ⟨fun hnew => ?_, fun _ => ⟨live_of_mem (hof.symm ▸ hmem) ?_, ?_⟩, fun hsame => ?_⟩
    · have hnew₁ : (k₁.procs p).state = .new := (hs.new p).mp hnew
      rw [he, hsync, pcbState_syncPcb_of_new hnew₁]
      rfl
    · exact ne_of_eq_of_ne hb (by decide)
    · rw [he, hsync]
      exact inStep_syncPcb k₁ p
    · have hmem' : t ∈ (blockThread k t reason).blockedThreads p :=
        mem_blockedThreads.mpr ⟨hof.symm ▸ hmem, hb⟩
      exact absurd (mem_blockedThreads.mp (hsame ▸ hmem')).2 hnb
  · refine .of_pcb (he ▸ hpcb) (blockedThreads_of_frame hd hs.threadCount (hs.pid p) hf ?_)
    intro u hu hut
    exact absurd (Set.mem_singleton_iff.mp hut ▸ (mem_threadsOf.mp hu).2) (ho ▸ ho')

theorem procs_endThreads (k : Kernel) (pid : ℤ) : (endThreads k pid).procs = k.procs :=
  List.foldlRecOn (motive := fun k' : Kernel => k'.procs = k.procs) _ _ rfl
    fun k' hk' t _ => by split_ifs <;> exact hk'

/-- The end of another process. -/
theorem untouched_end (hd : k.sched.Disciplined k.threadCount) {q : ℕ} (hpq : p ≠ q)
    (hpid : (k.procs p).pid ≠ (k.procs q).pid) :
    Untouched p k (endThreads (terminate k q) (k.procs q).pid) := by
  have hend := ended_terminate rfl (.refl hd) q (k.procs q).pid
  have hprocs : (endThreads (terminate k q) (k.procs q).pid).procs p = k.procs p := by
    rw [procs_endThreads, terminate_procs_of_ne k hpq]
  refine ⟨threadsOf_congr (steady_endThreads _ _).threadCount (by rw [hprocs]) hend.frame.ownerPid,
    fun t ht => ?_, by rw [Kernel.pcbState, hprocs]; rfl⟩
  have hsame : (endThreads (terminate k q) (k.procs q).pid).tcb t = k.tcb t :=
    hend.same t fun ho => hpid ((mem_threadsOf.mp ht).2.symm.trans ho.2)
  rw [hsame]
  exact ⟨rfl, rfl⟩

/-! ### The parts of a tick -/

theorem Rewakes.refreshes (hr : Rewakes p k k') (h : Tables k) (hp : p < k.procCount) :
    Refreshes p k k' :=
  (hr h.pids hp).refreshes

theorem refreshes_executeCommand (h : Tables k) (hp : p < k.procCount) {t : ℕ}
    (hrun : k.sched.Yields t) : Refreshes p k (executeCommand k t) := by
  have hr := threadRelation_rewakes p
  have hadvance : ∀ k₁ : Kernel, Prepared k k₁ → Untouched p k (k₁.setTcb t TCB.advance) :=
    fun k₁ hk => (Untouched.of_sameStates hk.sameStates p).trans
      (.of_sameStates (sameStates_setTcb k₁ t rfl rfl rfl) p)
  have hx := commandEffect k t
  generalize executeCommand k t = k' at hx ⊢
  cases hx with
  | @ran k₁ hk hphase =>
    have h₁ : Rewakes p k k₁ := hr.same (hk.sameThreads hphase)
    have h₂ : Rewakes p k₁ (k₁.setTcb t threadExecute) :=
      fun _ _ => .of_sameStates (sameStates_execute k₁ t) p
    exact (hr.trans h₁ (hr.trans h₂ ((wakeRelation_rewakes p).wakeThreads _ _))).refreshes h hp
  | @refused k₁ hk _ _ _ =>
    refine (Untouched.of_sameStates hk.sameStates p).refreshes_before (refreshes_blockThread ?_ ?_ ?_ ?_ _)
    · rw [hk.sched, hk.threadCount]
      exact h.disciplined
    · rw [hk.rest]
      exact h.pids
    · rw [hk.rest]
      exact hp
    · rw [hk.sched]
      exact hrun
  | acquired hk _ _ => exact (hadvance _ hk).refreshes
  | @wrote k₁ hk _ _ pid path =>
    obtain ⟨hd, hyields⟩ := hk.advance h hrun
    have hreg : SameThreads (blockThread (k₁.setTcb t TCB.advance) t .ioBlock)
        (registerIo (blockThread (k₁.setTcb t TCB.advance) t .ioBlock) pid path) := by
      rw [registerIo_rest]
      exact .of_procs rfl rfl rfl rfl rfl
    have hb : Refreshes p (k₁.setTcb t TCB.advance) _ :=
      refreshes_blockThread ?_ ?_ ?_ hyields .ioBlock
    · exact (hadvance k₁ hk).refreshes_before (hb.untouched (.of_sameStates hreg.sameStates p))
    · have hn : (k₁.setTcb t TCB.advance).threadCount = k.threadCount := hk.threadCount
      rw [hn]
      exact hd
    · rw [hk.rest]
      exact h.pids
    · rw [hk.rest]
      exact hp

/-- Nobody is blocked or woken by a change of the running thread. -/
theorem refreshes_of_frame (h : Tables k) (s : Scheduler) {touched : Set ℕ}
    (hf : Frame k.sched s k.threadCount touched)
    (ht : ∀ t ∈ touched, (s.tcb t).state ≠ .blocked ∧ (k.tcb t).state ≠ .blocked) (p : ℕ) :
    Refreshes p k { k with sched := s } :=
  .of_pcb rfl (blockedThreads_of_frame h.disciplined rfl rfl hf fun t _ htt =>
    iff_of_false (ht t htt).1 (ht t htt).2)

/-- A process that has not ended is not the one that ends here. -/
theorem refreshes_end (hs : Refreshes p k k') (hd : k'.sched.Disciplined k'.threadCount)
    (hpids : DistinctPids k'.procs k'.procCount) (hp : p < k'.procCount) {q : ℕ}
    (hq : q < k'.procCount)
    (halive : ((endThreads (terminate k' q) (k'.procs q).pid).procs p).state ≠ .terminated) :
    Refreshes p k (endThreads (terminate k' q) (k'.procs q).pid) := by
  have hpq : p ≠ q := by
    rintro rfl
    rw [procs_endThreads] at halive
    exact halive (terminate_procs_self k' p).2
  exact hs.untouched (untouched_end hd hpq fun he => hpq (hpids p hp q hq he))

theorem refreshes_cleanupProcess (hs : Refreshes p k k') (hd : k'.sched.Disciplined k'.threadCount)
    (hpids : DistinctPids k'.procs k'.procCount) (hp : p < k'.procCount) {q : ℕ}
    (hq : q < k'.procCount)
    (halive : ((cleanupProcess k' q false).procs p).state ≠ .terminated) :
    Refreshes p k (cleanupProcess k' q false) := by
  have hw : SameThreads k' (withdraw k' (k'.procs q).pid) := .of_procs rfl rfl rfl rfl rfl
  rw [cleanupProcess_eq] at halive ⊢
  exact refreshes_end (hs.untouched (.of_sameStates hw.sameStates p)) hd hpids hp hq halive

theorem refreshes_retire (h : Tables k) (hp : p < k.procCount) {t : ℕ}
    (halive : ((retire k t).procs p).state ≠ .terminated) : Refreshes p k (retire k t) := by
  by_cases hrun : (k.tcb t).state = .running ∧ (k.tcb t).burstRemaining ≤ 0
  · obtain ⟨hf, -, hdone⟩ := Scheduler.frame_schedulerTerminate (t := t) h.disciplined
    set k₁ : Kernel := { k with sched := schedulerTerminate k.sched t } with hk₁
    have hs : Refreshes p k k₁ := by
      refine refreshes_of_frame h _ hf (fun u hu => ?_) p
      rw [Set.mem_singleton_iff.mp hu]
      exact ⟨ne_of_eq_of_ne hdone (by decide), ne_of_eq_of_ne hrun.1 (by decide)⟩
    cases hend : endingProcess k t with
    | none =>
      have he : retire k t = k₁ := by rw [retire, if_pos hrun, hend]
      exact he ▸ hs
    | some q =>
      have he : retire k t = cleanupProcess k₁ q false := by rw [retire, if_pos hrun, hend]
      have hq : q < k.procCount := by
        rw [endingProcess, if_pos hrun, Option.filter_eq_some_iff] at hend
        exact (findProc_some hend.1).1
      rw [he] at halive ⊢
      exact refreshes_cleanupProcess hs hf.disciplined h.pids hp hq halive
  · have he : retire k t = k := if_neg hrun
    rw [he]
    exact .of_pcb rfl rfl

theorem refreshes_detectDeadlock (h : Tables k) (hp : p < k.procCount)
    (halive : ((detectDeadlock k).procs p).state ≠ .terminated) : Refreshes p k (detectDeadlock k) := by
  cases hv : deadlockVictim k with
  | none =>
    rw [detectDeadlock, hv]
    exact .of_pcb rfl rfl
  | some q =>
    set r := deadlockResolve k.graph (k.procs q).pid
    have he : detectDeadlock k = cleanupProcess (applyWoken k r) q false := by
      rw [detectDeadlock, hv]
    have hr := (callbackRelation_rewakes p).applyWoken k r h.pids hp
    have hd := (enqueue_applyWoken h.disciplined r).frame.disciplined
    rw [he] at halive ⊢
    exact refreshes_cleanupProcess hr.refreshes (hr.threadCount.symm ▸ hd)
      (hr.distinctPids h.pids) (hr.procCount.symm ▸ hp)
      (hr.procCount.symm ▸ (deadlockVictim_lt hv)) halive

theorem refreshes_injectCrash (h : Tables k) (hp : p < k.procCount)
    (halive : ((injectCrash k).procs p).state ≠ .terminated) : Refreshes p k (injectCrash k) := by
  cases hc : crashedProcess k with
  | none =>
    rw [injectCrash, hc]
    exact .of_pcb rfl rfl
  | some q =>
    set pid := (k.procs q).pid with hpid
    set k₁ := withdraw k pid
    set k₂ := releaseResources k₁ pid with hk₂
    have he : injectCrash k = endThreads (terminate k₂ q) pid := by
      rw [injectCrash, hc]
      rfl
    have hw : SameThreads k k₁ := .of_procs rfl rfl rfl rfl rfl
    have hr := (threadRelation_rewakes p).trans ((threadRelation_rewakes p).same hw)
      ((callbackRelation_rewakes p).releaseResources k₁ pid) h.pids hp
    have hd := (enqueue_applyWoken (k := k₁) h.disciplined
      (wakeAllWaiters (deadlockCleanupProcess k₁.graph pid))).frame.disciplined
    have hq := (crashedProcess_some hc).choose_spec.2.1
    rw [he, hpid, ← hr.pid q] at halive ⊢
    exact refreshes_end hr.refreshes (hr.threadCount.symm ▸ hd) (hr.distinctPids h.pids)
      (hr.procCount.symm ▸ hp) (hr.procCount.symm ▸ hq) halive

theorem refreshes_triggerPageFault (h : Tables k) (hp : p < k.procCount) :
    Refreshes p k (triggerPageFault k) := by
  rcases triggerPageFault_cases k with
    ⟨pcb, addr, he⟩ | he | ⟨t, q, pcb, addr, page, hrun, -, -, -, -, he⟩
  · have hs : SameThreads k (triggerPageFault k) := by
      rw [he]
      exact .of_procs rfl rfl rfl rfl rfl
    exact (Untouched.of_sameStates hs.sameStates p).refreshes
  · rw [he]
    exact .of_pcb rfl rfl
  · set k₁ : Kernel := { k with mem := (memAccess k.mem pcb addr).mem }
    have h₁ : SameThreads k k₁ := .of_procs rfl rfl rfl rfl rfl
    have h₂ : SameThreads (blockThread k₁ t .pageFault) (triggerPageFault k) := by
      rw [he, registerPageFault_rest]
      exact .of_procs rfl rfl rfl rfl rfl
    have hb : Refreshes p k₁ (blockThread k₁ t .pageFault) :=
      refreshes_blockThread (k := k₁) h.disciplined h.pids hp (runningThread_iff.mp hrun) .pageFault
    exact (Untouched.of_sameStates h₁.sameStates p).refreshes_before
      (hb.untouched (.of_sameStates h₂.sameStates p))

/-- The parts of a tick besides the arrivals and the snapshot. -/
theorem refreshes_machineStep {m : Kernel × Phase} (h : MachineTables m) (hp : p < m.1.procCount)
    (ha : m.2 ≠ .arrivals) (hs : ¬(m.2 = .snapshot ∧ m.1.currentTick % snapshotInterval = 0))
    (halive : ((machineStep m).1.procs p).state ≠ .terminated) :
    Refreshes p m.1 (machineStep m).1 := by
  obtain ⟨k, ph⟩ := m
  have ht : Tables k := h.tables
  have hr := wakeRelation_rewakes p
  have hsame : ∀ {k' : Kernel}, SameThreads k k' → Refreshes p k k' :=
    fun hk => (Untouched.of_sameStates hk.sameStates p).refreshes
  cases ph with
  | top =>
    simp only [machineStep]
    split_ifs
    · exact hsame (.refl k)
    · exact hsame (.of_procs rfl rfl rfl rfl rfl)
  | arrivals => exact absurd rfl ha
  | ioEvents => exact (hr.foldl hr.completeIoEvent _ k).refreshes ht hp
  | pageFaults => exact (hr.foldl hr.completePageFault _ k).refreshes ht hp
  | compact => exact hsame (.of_procs rfl rfl rfl rfl rfl)
  | dispatch =>
    simp only [machineStep, ensureRunning]
    split_ifs
    · exact hsame (.refl k)
    · exact refreshes_of_frame ht _ (Scheduler.frame_schedulerNext ht.disciplined)
        (fun t ht => absurd ht (Set.notMem_empty t)) p
  | execute =>
    cases hrun : k.runningThread with
    | none =>
      simp only [machineStep, hrun]
      exact hsame (.refl k)
    | some t =>
      simp only [machineStep, hrun]
      exact refreshes_executeCommand ht hp (runningThread_iff.mp hrun)
  | retire t => exact refreshes_retire ht hp halive
  | detect => exact refreshes_detectDeadlock ht hp halive
  | crash => exact refreshes_injectCrash ht hp halive
  | pageFault => exact refreshes_triggerPageFault ht hp
  | schedTick =>
    exact refreshes_of_frame ht _ (Scheduler.frame_schedulerTick ht.disciplined k.currentTick)
      (fun t ht => absurd ht (Set.notMem_empty t)) p
  | waitTime =>
    refine hsame ⟨rfl, rfl, rfl, fun q => ?_, fun q => ?_, fun q => ?_, rfl⟩
    all_goals
      simp only [machineStep, trackWaitTime]
      split_ifs <;> rfl
  | snapshot =>
    have he : snapshotSync k = k := if_neg fun hc => hs ⟨rfl, hc⟩
    rw [machineStep, he]
    exact hsame (.refl k)
  | wakeWaiters => exact (hr.wakeBufferWaiters k).refreshes ht hp
  | finish =>
    simp only [machineStep]
    split_ifs
    · exact hsame (.refl k)
    · exact hsame (.of_procs rfl rfl rfl rfl rfl)
  | halted => exact hsame (.refl k)

end FleetOS
