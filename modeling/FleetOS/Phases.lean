import FleetOS.Cleanup
import FleetOS.PageTables

/-!
# The parts of a tick

What each part of the loop does to the tables and to the threads. A part that wakes threads is
an `Enqueue` of threads that are named : the threads of new processes (`Arrived`), the threads
that a due event is for (`completed_foldl`), the threads that ids of the buffer resolve to
(`drained_wakeBufferWaiters`). A command either keeps its thread running and wakes threads by
the buffer, or blocks it (`executeCommand_cases`).
-/

namespace FleetOS

open Scheduler (Frame Enqueue Ended)

/-! ## Arrivals -/

/-- What arrivals do : threads of new processes are queued. -/
structure Arrived (k k' : Kernel) : Prop where
  rest : k' = { k with procs := k'.procs, sched := k'.sched }
  pid : ∀ p, (k'.procs p).pid = (k.procs p).pid
  new : ∀ p, (k'.procs p).state = .new → (k.procs p).state = .new
  terminated : ∀ p, (k'.procs p).state = .terminated ↔ (k.procs p).state = .terminated
  tables : Tables k'
  threads : ∃ woken, Enqueue k.sched k'.sched k.threadCount woken ∧
    ∀ t ∈ woken, t < k.threadCount ∧ (k.tcb t).state = .ready

theorem Arrived.refl {k : Kernel} (h : Tables k) : Arrived k k :=
  ⟨rfl, fun _ => rfl, fun _ hp => hp, fun _ => Iff.rfl, h, ∅, .refl h.disciplined,
    fun t ht => absurd ht (Set.notMem_empty t)⟩

theorem Arrived.threadCount {k k' : Kernel} (h : Arrived k k') : k'.threadCount = k.threadCount := by
  rw [h.rest]

theorem Arrived.procCount {k k' : Kernel} (h : Arrived k k') : k'.procCount = k.procCount := by
  rw [h.rest]

/-- A thread that is ready after an arrival and not queued was ready before. -/
theorem Arrived.trans {k k' k'' : Kernel} (h : Arrived k k') (h' : Arrived k' k'') :
    Arrived k k'' := by
  obtain ⟨a, ha, hra⟩ := h.threads
  obtain ⟨b, hb, hrb⟩ := h'.threads
  rw [h.threadCount] at hb hrb
  refine ⟨by rw [h'.rest, h.rest], fun p => (h'.pid p).trans (h.pid p),
    fun p hp => h.new p (h'.new p hp), fun p => (h'.terminated p).trans (h.terminated p), h'.tables,
    a ∪ b, ha.trans hb, ?_⟩
  rintro t (ht | ht)
  · exact hra t ht
  · by_cases hta : t ∈ a
    · exact hra t hta
    · have hsame : k'.tcb t = k.tcb t := ha.same t hta
      exact ⟨(hrb t ht).1, hsame ▸ (hrb t ht).2⟩

/-- The loop compares with a pid that it does not change. -/
theorem arrive_eq {k : Kernel} {p : ℕ}
    (h : (k.procs p).state = .new ∧ (k.procs p).arrivalTime ≤ k.currentTick) :
    arrive k p = k.threads.foldl
      (fun k' t => if (k'.tcb t).ownerPid = (k.procs p).pid then
        { k' with sched := schedulerAdd k'.sched t } else k')
      (k.setProc p fun c => pcbSetState c .ready) := by
  have hloop : ∀ (l : List ℕ) (k' : Kernel), (k'.procs p).pid = (k.procs p).pid →
      l.foldl (fun k t => if (k.tcb t).ownerPid = (k.procs p).pid then
        { k with sched := schedulerAdd k.sched t } else k) k' =
      l.foldl (fun k' t => if (k'.tcb t).ownerPid = (k.procs p).pid then
        { k' with sched := schedulerAdd k'.sched t } else k') k' := by
    intro l
    induction l with
    | nil => exact fun _ _ => rfl
    | cons t l ih =>
      intro k' hk'
      rw [List.foldl_cons, List.foldl_cons, hk']
      exact ih _ (by split_ifs <;> exact hk')
  rw [arrive, if_pos h]
  exact hloop _ _ (pid_setReady k p p)

theorem steady_arrive {k : Kernel} {p : ℕ}
    (h : (k.procs p).state = .new ∧ (k.procs p).arrivalTime ≤ k.currentTick) :
    Steady (k.setProc p fun c => pcbSetState c .ready) (arrive k p) ∧
      (arrive k p).deadlockPhase = k.deadlockPhase := by
  rw [arrive_eq h]
  refine ⟨steady_foldl (fun k t => ?_) _ _, ?_⟩
  · split_ifs
    · exact steady_sched k _
    · exact .refl k
  · exact List.foldlRecOn (motive := fun k' : Kernel => k'.deadlockPhase = k.deadlockPhase) _ _
      rfl fun k' hk' t _ => by split_ifs <;> exact hk'

/-- The threads of the process are queued. -/
theorem enqueue_arrive {k : Kernel} (h : Tables k) {p : ℕ} (hp : p < k.procCount)
    (hnew : (k.procs p).state = .new ∧ (k.procs p).arrivalTime ≤ k.currentTick) :
    Enqueue k.sched (arrive k p).sched k.threadCount
      {u | u < k.threadCount ∧ (k.tcb u).ownerPid = (k.procs p).pid} := by
  have hq := enqueue_foldl (f := fun k t => { k with sched := schedulerAdd k.sched t })
    (C := fun c => c.ownerPid = (k.procs p).pid) (n := k.threadCount)
    (fun k t hd ht _ hpark hcur => Scheduler.enqueue_add hd ht hpark hcur)
    k.threads (k.setProc p fun c => pcbSetState c .ready) h.disciplined List.nodup_range
    fun t ht => by
      refine ⟨mem_threads.mp ht, fun ho => ?_⟩
      obtain ⟨hpark, hready⟩ := h.fresh p hp hnew.1 t (mem_threads.mp ht) ho
      refine ⟨hpark, fun hcur => ?_⟩
      have hready : (k.sched.tcb t).state = .ready := hready
      rcases (h.disciplined.current t hcur).2 with hs | hs <;> rw [hready] at hs <;> cases hs
  rw [← arrive_eq hnew] at hq
  refine hq.congr fun u => ?_
  simp only [Set.mem_ofPred_eq, mem_threads]
  rfl

theorem arrived_arrive {k : Kernel} (h : Tables k) {p : ℕ} (hp : p < k.procCount) :
    Arrived k (arrive k p) := by
  by_cases hnew : (k.procs p).state = .new ∧ (k.procs p).arrivalTime ≤ k.currentTick
  · obtain ⟨hsteady, hphase⟩ := steady_arrive hnew
    have hq := enqueue_arrive h hp hnew
    have hpid : ∀ q, ((arrive k p).procs q).pid = (k.procs q).pid :=
      fun q => (hsteady.pid q).trans (pid_setReady k p q)
    have hnew' : ∀ q, ((arrive k p).procs q).state = .new → q ≠ p ∧ (k.procs q).state = .new :=
      fun q hq => new_setReady ((hsteady.new q).mp hq)
    refine ⟨?_, hpid, fun q hq => (hnew' q hq).2, fun q => ?_, ?_, _, hq, fun t ht =>
      ⟨ht.1, (h.fresh p hp hnew.1 t ht.1 ht.2).2⟩⟩
    · have hrest := hsteady.rest
      rw [hphase] at hrest
      exact hrest
    · rw [hsteady.terminated]
      by_cases hqp : q = p
      · rw [hqp, setProc_self, hnew.1]
        exact iff_of_false (fun hs => by cases hs) fun hs => by cases hs
      · rw [setProc_of_ne k hqp]
    · refine h.step hsteady.threadCount hsteady.procCount hpid hq.frame fun q hqn hs =>
        ⟨(hnew' q hs).2, fun t ht _ ho => ?_⟩
      exact (hnew' q hs).1 (h.pids q hqn p hp (ho.symm.trans ht.2))
  · have he : arrive k p = k := if_neg hnew
    rw [he]
    exact .refl h

theorem arrived_checkArrivals {k : Kernel} (h : Tables k) : Arrived k (checkArrivals k) := by
  have hstep : ∀ (l : List ℕ) (k : Kernel), Tables k → (∀ p ∈ l, p < k.procCount) →
      Arrived k (l.foldl arrive k) := by
    intro l
    induction l with
    | nil => exact fun k h _ => .refl h
    | cons p l ih =>
      intro k h hl
      have ha := arrived_arrive h (hl p List.mem_cons_self)
      exact ha.trans (ih _ ha.tables fun q hq =>
        ha.procCount.symm ▸ hl q (List.mem_cons_of_mem p hq))
  exact hstep _ k h fun p hp => List.mem_range.mp hp

/-! ## Completions -/

/-- Thread `t` is blocked for the event in slot `i`, which is due. -/
structure Kernel.Awaits (k : Kernel) (reason : BlockReason) (i t : ℕ) : Prop where
  lt : t < k.threadCount
  due : k.due reason i = true
  found : k.findProc (k.pending i).pid ≠ none
  owner : (k.tcb t).ownerPid = (k.pending i).pid
  blocked : (k.tcb t).state = .blocked
  reason : (k.tcb t).waitReason = reason

/-- What the completion of event `i` does, if one for `reason` is due there : the threads that are
blocked for it are woken, and it is no longer active. -/
structure Completed (reason : BlockReason) (i : ℕ) (k k' : Kernel) : Prop where
  calm : Calm k k'
  sensorBuf : k'.sensorBuf = k.sensorBuf
  graph : k'.graph = k.graph
  pendingCount : k'.pendingCount = k.pendingCount
  pending : k'.pending = Function.update k.pending i
    (if k.due reason i then { k.pending i with active := false } else k.pending i)
  threads : k.sched.Disciplined k.threadCount →
    Enqueue k.sched k'.sched k.threadCount {t | k.Awaits reason i t}

theorem Completed.of_not_due {reason : BlockReason} {i : ℕ} {k : Kernel}
    (h : ¬k.due reason i = true) : Completed reason i k k := by
  refine ⟨.refl k, rfl, rfl, rfl, ?_, fun hd => (Enqueue.refl hd).congr fun t =>
    iff_of_false (Set.notMem_empty t) fun ha => h ha.due⟩
  rw [if_neg h, Function.update_eq_self]

/-- An event is completed by waking the threads of its process, after a change that does not
reach the threads. -/
theorem Completed.of_wake {reason : BlockReason} {i p : ℕ} {k k₁ : Kernel} {pid : ℤ}
    (hdue : k.due reason i = true) (hp : k.findProc (k.pending i).pid = some p)
    (hpid : pid = (k.pending i).pid) (hcalm : Calm k k₁)
    (hrest : k₁ = { k with procs := k₁.procs, mem := k₁.mem, fs := k₁.fs }) :
    Completed reason i k
      ((unblockOwned k₁ pid reason).setPending i fun e => { e with active := false }) := by
  have hs := steady_unblockOwned k₁ pid reason
  have hpend : k₁.pending = k.pending := by rw [hrest]
  have hsched : k₁.sched = k.sched := by rw [hrest]
  refine ⟨(hcalm.trans hs.calm).trans (.of_rest rfl), ?_, ?_, ?_, ?_, fun hd => ?_⟩
  · exact hs.sensorBuf.trans (by rw [hrest])
  · exact hs.graph.trans (by rw [hrest])
  · exact hs.pendingCount.trans (by rw [hrest])
  · rw [if_pos hdue]
    unfold Kernel.setPending
    dsimp only
    rw [hs.pending, hpend]
  · have hn : k₁.threadCount = k.threadCount := hcalm.threadCount
    have hq := enqueue_unblockOwned (k := k₁) (hn.symm ▸ hsched.symm ▸ hd) pid reason
    rw [hn, hsched] at hq
    refine hq.congr fun t => ?_
    simp only [Set.mem_ofPred_eq, Kernel.tcb, hsched]
    constructor
    · rintro ⟨ht, ho, hb, hr⟩
      exact ⟨ht, hdue, by simp [hp], ho.trans hpid, hb, hr⟩
    · exact fun ha => ⟨ha.lt, ha.owner.trans hpid.symm, ha.blocked, ha.reason⟩

theorem Completed.of_nobody {reason : BlockReason} {i : ℕ} {k : Kernel}
    (hdue : k.due reason i = true) (hp : k.findProc (k.pending i).pid = none) :
    Completed reason i k (k.setPending i fun e => { e with active := false }) := by
  refine ⟨.of_rest rfl, rfl, rfl, rfl, ?_, fun hd => (Enqueue.refl hd).congr fun t =>
    iff_of_false (Set.notMem_empty t) fun ha => ha.found hp⟩
  rw [if_pos hdue]
  rfl

theorem completed_completeIoEvent (k : Kernel) (i : ℕ) :
    Completed .ioBlock i k (completeIoEvent k i) := by
  by_cases hdue : k.due .ioBlock i = true
  · unfold completeIoEvent
    rw [hdue]
    simp only [Bool.not_true, Bool.false_eq_true, if_false]
    cases hf : k.findProc (k.pending i).pid with
    | none => exact .of_nobody hdue hf
    | some p => exact .of_wake hdue hf rfl (.of_rest rfl) rfl
  · have he : completeIoEvent k i = k := by simp [completeIoEvent, hdue]
    rw [he]
    exact .of_not_due hdue

theorem calm_resolvePageFault (k : Kernel) (p : ℕ) (page : ℤ) :
    Calm k { k with
      mem := (resolvePageFault k.mem k.procs k.procCount p page).1
      procs := (resolvePageFault k.mem k.procs k.procCount p page).2 } := by
  have hstate := resolvePageFault_state k.mem k.procs k.procCount p page
  exact ⟨rfl, rfl, rfl, rfl, resolvePageFault_pid _ _ _ _ _, fun q => by rw [hstate], fun q => by rw [hstate]⟩

theorem completed_completePageFault (k : Kernel) (i : ℕ) :
    Completed .pageFault i k (completePageFault k i) := by
  by_cases hdue : k.due .pageFault i = true
  · unfold completePageFault
    rw [hdue]
    simp only [Bool.not_true, Bool.false_eq_true, if_false]
    cases hf : k.findProc (k.pending i).pid with
    | none => exact .of_nobody hdue hf
    | some p =>
      exact .of_wake hdue hf (findProc_some hf).2 (calm_resolvePageFault k p (k.pending i).page) rfl
  · have he : completePageFault k i = k := by simp [completePageFault, hdue]
    rw [he]
    exact .of_not_due hdue

/-- What the loop over the events at `l` does. -/
structure CompletedAll (reason : BlockReason) (l : List ℕ) (k k' : Kernel) : Prop where
  calm : Calm k k'
  sensorBuf : k'.sensorBuf = k.sensorBuf
  graph : k'.graph = k.graph
  pendingCount : k'.pendingCount = k.pendingCount
  pending : k'.pending = fun j =>
    if j ∈ l ∧ k.due reason j then { k.pending j with active := false } else k.pending j
  threads : k.sched.Disciplined k.threadCount →
    Enqueue k.sched k'.sched k.threadCount {t | ∃ i ∈ l, k.Awaits reason i t}

theorem completed_foldl {reason : BlockReason} {f : Kernel → ℕ → Kernel}
    (hf : ∀ k i, Completed reason i k (f k i)) :
    ∀ (l : List ℕ) (k : Kernel), l.Nodup → CompletedAll reason l k (l.foldl f k)
  | [], k, _ => by
    refine ⟨.refl k, rfl, rfl, rfl, ?_, fun hd => (Enqueue.refl hd).congr fun t =>
      iff_of_false (Set.notMem_empty t) fun ⟨i, hi, _⟩ => absurd hi List.not_mem_nil⟩
    simp
  | i :: l, k, hnd => by
    obtain ⟨hnot, hnd⟩ := List.nodup_cons.mp hnd
    have h₁ := hf k i
    have h₂ := completed_foldl hf l (f k i) hnd
    have hpend : ∀ j ∈ l, (f k i).pending j = k.pending j := by
      intro j hj
      have hji : j ≠ i := fun he => hnot (he ▸ hj)
      rw [h₁.pending, Function.update_of_ne hji]
    have hdue : ∀ j ∈ l, (f k i).due reason j = k.due reason j := by
      intro j hj
      simp only [Kernel.due, hpend j hj, h₁.calm.currentTick]
    rw [List.foldl_cons]
    refine ⟨h₁.calm.trans h₂.calm, h₂.sensorBuf.trans h₁.sensorBuf, h₂.graph.trans h₁.graph,
      h₂.pendingCount.trans h₁.pendingCount, ?_, fun hd => ?_⟩
    · rw [h₂.pending]
      funext j
      by_cases hj : j ∈ l
      · simp only [hj, List.mem_cons, or_true, true_and, hdue j hj, hpend j hj]
      · by_cases hji : j = i
        · subst hji
          simp only [hj, false_and, if_false, List.mem_cons, true_or, true_and, h₁.pending,
            Function.update_self]
        · simp only [hj, hji, List.mem_cons, or_false, false_and, if_false, h₁.pending,
            Function.update_of_ne hji]
    · have ha := h₁.threads hd
      have hn := h₁.calm.threadCount
      have hb := h₂.threads (hn.symm ▸ ha.frame.disciplined)
      rw [hn] at hb
      refine (ha.trans hb).congr fun t => ?_
      simp only [Set.mem_union, Set.mem_ofPred_eq, List.mem_cons, exists_eq_or_imp]
      by_cases hta : k.Awaits reason i t
      · exact iff_of_true (Or.inl hta) (Or.inl hta)
      -- the first event leaves the other threads and the other events as they are
      have hsame : (f k i).tcb t = k.tcb t := ha.same t hta
      refine or_congr_right (exists_congr fun j => and_congr_right fun hj => ?_)
      constructor <;> intro h <;> have hd := h.due <;> have hf := h.found <;> have ho := h.owner <;>
        have hb := h.blocked <;> have hr := h.reason
      · rw [hsame] at ho hb hr
        rw [hpend j hj] at hf ho
        rw [h₁.calm.findProc] at hf
        exact ⟨hn ▸ h.lt, hdue j hj ▸ hd, hf, ho, hb, hr⟩
      · refine ⟨hn.symm ▸ h.lt, (hdue j hj).symm ▸ hd, ?_, ?_, ?_, ?_⟩
        · rwa [hpend j hj, h₁.calm.findProc]
        · rwa [hsame, hpend j hj]
        · rwa [hsame]
        · rwa [hsame]

theorem completed_completeIoEvents (k : Kernel) :
    CompletedAll .ioBlock (List.range k.pendingCount) k (completeIoEvents k) :=
  completed_foldl completed_completeIoEvent _ k List.nodup_range

theorem completed_completePageFaults (k : Kernel) :
    CompletedAll .pageFault (List.range k.pendingCount) k (completePageFaults k) :=
  completed_foldl completed_completePageFault _ k List.nodup_range

/-! ## Commands -/

theorem runningThread_iff {k : Kernel} {t : ℕ} : k.runningThread = some t ↔ k.sched.Yields t := by
  unfold Kernel.runningThread Scheduler.Yields
  rw [Option.filter_eq_some_iff, decide_eq_true_iff]
  rfl

theorem runningThread_some {k : Kernel} {t : ℕ} (h : k.runningThread = some t) :
    k.sched.currentThread = some t ∧ (k.tcb t).state = .running :=
  runningThread_iff.mp h

theorem Tables.running_lt {k : Kernel} (h : Tables k) {t : ℕ} (hr : k.runningThread = some t) :
    t < k.threadCount :=
  h.disciplined.current_lt t (runningThread_some hr).1

/-- Why a command blocks its thread. -/
def CommandType.blockReason : CommandType → BlockReason
  | .compute => .none
  | .produceData => .mutexWait
  | .consumeData => .mutexWait
  | .acquireResource => .resourceWait
  | .ioWrite => .ioBlock

/-- The pids that a command takes out of the wait queues of the buffer. -/
def executeWakes (k : Kernel) (t : ℕ) : List ℤ :=
  match threadCurrentCommand (k.tcb t) with
  | .produceData =>
    (bufferProduce k.sensorBuf (k.currentTick * 100 + (k.tcb t).ownerPid) (k.tcb t).ownerPid).wakePids
  | .consumeData => (bufferConsume k.sensorBuf (k.tcb t).ownerPid).wakePids
  | _ => []

/-- The thread keeps the processor, and ids of the buffer are woken. -/
structure Continued (k k' : Kernel) (t : ℕ) (ids : List ℤ) : Prop where
  frame : Frame k.sched k'.sched k.threadCount ({t} ∪ resolvedBy k ids)
  running : (k'.tcb t).state = .running
  same : ∀ u ∉ ({t} ∪ resolvedBy k ids : Set ℕ), k'.tcb u = k.tcb u
  ready : ∀ u ∈ resolvedBy k ids, (k'.tcb u).state = .ready

/-- The thread blocks. -/
structure Blocked (k k' : Kernel) (t : ℕ) (reason : BlockReason) : Prop where
  frame : Frame k.sched k'.sched k.threadCount {t}
  blocked : (k'.tcb t).state = .blocked
  waitReason : (k'.tcb t).waitReason = reason

variable {k : Kernel} {t : ℕ}

/-- The command changes what it likes in its own thread but the state, and then wakes. -/
theorem continued_wakeThreads (h : Tables k) (hrun : k.runningThread = some t) {f : TCB → TCB}
    (hid : (f (k.tcb t)).ident = (k.tcb t).ident) (hs : (f (k.tcb t)).state = (k.tcb t).state)
    (hl : (f (k.tcb t)).mlfqLevel = (k.tcb t).mlfqLevel) {k₁ : Kernel}
    (hsched : k₁.sched = k.sched) (hn : k₁.threadCount = k.threadCount) (ids : List ℤ) :
    Continued k (wakeThreads (k₁.setTcb t f) ids) t ids := by
  obtain ⟨-, hstate⟩ := runningThread_some hrun
  have hf : Frame k.sched (k.sched.setTcb t f) k.threadCount {t} :=
    Scheduler.frame_setTcb_of_kernel h.disciplined hid hs hl
  have hsched₁ : (k₁.setTcb t f).sched = k.sched.setTcb t f := by
    rw [← hsched]
    rfl
  have hq := enqueue_wakeThreads ids (k := k₁.setTcb t f) (by
    rw [hsched₁]
    exact hn ▸ hf.disciplined)
  have hn₁ : (k₁.setTcb t f).threadCount = k.threadCount := hn
  rw [hsched₁, hn₁] at hq
  have hself : ((k₁.setTcb t f).tcb t).state = .running := by
    rw [Kernel.tcb, hsched₁, Scheduler.setTcb_self]
    exact hs.trans hstate
  have hother : ∀ u, u ≠ t → (k₁.setTcb t f).tcb u = k.tcb u := by
    intro u hu
    rw [Kernel.tcb, hsched₁, Scheduler.setTcb_of_ne _ hu]
    rfl
  have hset : resolvedBy (k₁.setTcb t f) ids = resolvedBy k ids := by
    have htid : ∀ u, ((k₁.setTcb t f).tcb u).tid = (k.tcb u).tid := by
      intro u
      rw [Kernel.tcb, hsched₁]
      exact hf.tid u
    have hblocked : ∀ u, ((k₁.setTcb t f).tcb u).state = .blocked ↔ (k.tcb u).state = .blocked := by
      intro u
      by_cases hu : u = t
      · rw [hu, hself, hstate]
      · rw [hother u hu]
    ext u
    simp only [resolvedBy, Set.mem_ofPred_eq, findThread_congr hn₁ htid, hblocked]
  rw [hset] at hq
  have hnot : t ∉ resolvedBy k ids := by
    rintro ⟨-, hb⟩
    rw [hstate] at hb
    cases hb
  refine ⟨(hf.mono Set.subset_union_left).trans (hq.frame.mono Set.subset_union_right), ?_,
    fun u hu => ?_, hq.ready⟩
  · have hsame : (wakeThreads (k₁.setTcb t f) ids).sched.tcb t = (k.sched.setTcb t f).tcb t :=
      hq.same t hnot
    rw [Kernel.tcb, hsame, ← hsched₁]
    exact hself
  · rw [Set.mem_union, not_or] at hu
    have hsame : (wakeThreads (k₁.setTcb t f) ids).sched.tcb u = (k.sched.setTcb t f).tcb u :=
      hq.same u hu.2
    rw [Kernel.tcb, hsame, Scheduler.setTcb_of_ne _ hu.1]
    rfl

theorem continued_setTcb (h : Tables k) (hrun : k.runningThread = some t) {f : TCB → TCB}
    (hid : (f (k.tcb t)).ident = (k.tcb t).ident) (hs : (f (k.tcb t)).state = (k.tcb t).state)
    (hl : (f (k.tcb t)).mlfqLevel = (k.tcb t).mlfqLevel) {k₁ : Kernel}
    (hsched : k₁.sched = k.sched) (hn : k₁.threadCount = k.threadCount) :
    Continued k (k₁.setTcb t f) t [] :=
  continued_wakeThreads h hrun hid hs hl hsched hn []

theorem blocked_blockThread (h : Tables k) (hrun : k.runningThread = some t) {f : TCB → TCB}
    (hid : (f (k.tcb t)).ident = (k.tcb t).ident) (hs : (f (k.tcb t)).state = (k.tcb t).state)
    (hl : (f (k.tcb t)).mlfqLevel = (k.tcb t).mlfqLevel) {k₁ : Kernel}
    (hsched : k₁.sched = k.sched.setTcb t f) (reason : BlockReason) :
    Blocked k (blockThread k₁ t reason) t reason := by
  obtain ⟨hcur, hstate⟩ := runningThread_some hrun
  have hf : Frame k.sched k₁.sched k.threadCount {t} := by
    rw [hsched]
    exact Scheduler.frame_setTcb_of_kernel h.disciplined hid hs hl
  have hcur₁ : k₁.sched.currentThread = some t := by
    rw [hsched]
    exact hcur
  have hstate₁ : (k₁.tcb t).state = .running := by
    rw [Kernel.tcb, hsched, Scheduler.setTcb_self]
    exact hs.trans hstate
  obtain ⟨hf', hb, hw⟩ := frame_blockThread hf.disciplined hcur₁ hstate₁ reason
  exact ⟨hf.trans hf', hb, hw⟩

theorem blocked_blockThread_of_sched (h : Tables k) (hrun : k.runningThread = some t) {k₁ : Kernel}
    (hsched : k₁.sched = k.sched) (reason : BlockReason) :
    Blocked k (blockThread k₁ t reason) t reason := by
  obtain ⟨hcur, hstate⟩ := runningThread_some hrun
  have hstate₁ : (k₁.tcb t).state = .running := by
    rw [Kernel.tcb, hsched]
    exact hstate
  obtain ⟨hf, hb, hw⟩ := frame_blockThread (hsched ▸ h.disciplined) (hsched ▸ hcur) hstate₁ reason
  exact ⟨hsched ▸ hf, hb, hw⟩

/-- A failed call gives no wake-ups. -/
theorem bufferProduce_wakePids {b : BoundedBuffer} {item pid : ℤ}
    (h : (bufferProduce b item pid).ret < 0) : (bufferProduce b item pid).wakePids = [] := by
  unfold bufferProduce at h ⊢
  dsimp only at h ⊢
  split_ifs at h ⊢ <;> first | rfl | simp at h

theorem bufferConsume_wakePids {b : BoundedBuffer} {pid : ℤ} (h : (bufferConsume b pid).ret < 0) :
    (bufferConsume b pid).wakePids = [] := by
  unfold bufferConsume at h ⊢
  dsimp only at h ⊢
  split_ifs at h ⊢ <;> first | rfl | simp at h

theorem registerIo_rest (k : Kernel) (pid : ℤ) (path : CString) :
    registerIo k pid path = { k with
      pending := (registerIo k pid path).pending
      pendingCount := (registerIo k pid path).pendingCount } := by
  unfold registerIo
  dsimp only
  split
  · rfl
  · split_ifs <;> rfl

/-- `k₁` is `k` but for what a command changes besides the threads. -/
structure Prepared (k k₁ : Kernel) : Prop where
  rest : k₁ = { k with
    sensorBuf := k₁.sensorBuf
    ioSeq := k₁.ioSeq
    fs := k₁.fs
    graph := k₁.graph
    deadlockPhase := k₁.deadlockPhase }

theorem Prepared.sched {k₁ : Kernel} (h : Prepared k k₁) : k₁.sched = k.sched := by rw [h.rest]

theorem Prepared.threadCount {k₁ : Kernel} (h : Prepared k k₁) :
    k₁.threadCount = k.threadCount := by rw [h.rest]

theorem Prepared.setTcb_self {k₁ : Kernel} (h : Prepared k k₁) (t : ℕ) (f : TCB → TCB) :
    (k₁.setTcb t f).tcb t = f (k.tcb t) := by
  rw [Kernel.tcb, Kernel.setTcb, Scheduler.setTcb_self, h.sched]
  rfl

theorem Prepared.setTcb_of_ne {k₁ : Kernel} (h : Prepared k k₁) {t u : ℕ} (hu : u ≠ t)
    (f : TCB → TCB) : (k₁.setTcb t f).tcb u = k.tcb u := by
  rw [Kernel.tcb, Kernel.setTcb, Scheduler.setTcb_of_ne _ hu, h.sched]
  rfl

/-- A write advances its thread before it blocks it. -/
theorem Prepared.advance {k₁ : Kernel} (h : Prepared k k₁) (ht : Tables k)
    (hrun : k.sched.Yields t) :
    (k₁.setTcb t TCB.advance).sched.Disciplined k.threadCount ∧
      (k₁.setTcb t TCB.advance).sched.Yields t := by
  have hf : Frame k.sched (k₁.sched.setTcb t TCB.advance) k.threadCount {t} := by
    rw [h.sched]
    exact Scheduler.frame_setTcb_of_kernel ht.disciplined rfl rfl rfl
  refine ⟨hf.disciplined, ?_, ?_⟩
  · rw [Kernel.setTcb, h.sched]
    exact hrun.1
  · exact (congrArg TCB.state (h.setTcb_self t TCB.advance)).trans hrun.2

/-- What a command of thread `t` does to the threads : it runs on, it is refused, it is given what
it asks for, or it waits for its write. -/
inductive CommandEffect (k : Kernel) (t : ℕ) : Kernel → Prop
  | ran {k₁ : Kernel} (h : Prepared k k₁) (hp : k₁.deadlockPhase = k.deadlockPhase) :
      CommandEffect k t (wakeThreads (k₁.setTcb t threadExecute) (executeWakes k t))
  | refused {k₁ : Kernel} (h : Prepared k k₁) (hp : k₁.deadlockPhase = k.deadlockPhase)
      (hw : executeWakes k t = []) (hc : threadCurrentCommand (k.tcb t) ≠ .compute) :
      CommandEffect k t (blockThread k₁ t (threadCurrentCommand (k.tcb t)).blockReason)
  | acquired {k₁ : Kernel} (h : Prepared k k₁)
      (hc : threadCurrentCommand (k.tcb t) = .acquireResource)
      (hd : k.config.deadlockEnabled = true) : CommandEffect k t (k₁.setTcb t TCB.advance)
  | wrote {k₁ : Kernel} (h : Prepared k k₁) (hp : k₁.deadlockPhase = k.deadlockPhase)
      (hc : threadCurrentCommand (k.tcb t) = .ioWrite) (pid : ℤ) (path : CString) :
      CommandEffect k t
        (registerIo (blockThread (k₁.setTcb t TCB.advance) t .ioBlock) pid path)

theorem commandEffect (k : Kernel) (t : ℕ) : CommandEffect k t (executeCommand k t) := by
  have hran : ∀ {k₁ i}, Prepared k k₁ → k₁.deadlockPhase = k.deadlockPhase →
      executeWakes k t = i → CommandEffect k t (wakeThreads (k₁.setTcb t threadExecute) i) := by
    rintro k₁ i h hp rfl
    exact .ran h hp
  have hrefused : ∀ {k₁ reason}, Prepared k k₁ → k₁.deadlockPhase = k.deadlockPhase →
      executeWakes k t = [] → threadCurrentCommand (k.tcb t) ≠ .compute →
      (threadCurrentCommand (k.tcb t)).blockReason = reason →
        CommandEffect k t (blockThread k₁ t reason) := by
    rintro k₁ reason h hp hw hc rfl
    exact .refused h hp hw hc
  unfold executeCommand
  cases hc : threadCurrentCommand (k.tcb t) with
  | compute => exact hran (i := []) ⟨rfl⟩ rfl (by rw [executeWakes, hc])
  | produceData =>
    unfold executeProduce
    dsimp only
    split_ifs with hret
    · refine hrefused ⟨rfl⟩ rfl ?_ (by rw [hc]; decide) (by rw [hc]; rfl)
      rw [executeWakes, hc]
      exact bufferProduce_wakePids hret
    · exact hran ⟨rfl⟩ rfl (by rw [executeWakes, hc])
  | consumeData =>
    unfold executeConsume
    dsimp only
    split_ifs with hret
    · refine hrefused ⟨rfl⟩ rfl ?_ (by rw [hc]; decide) (by rw [hc]; rfl)
      rw [executeWakes, hc]
      exact bufferConsume_wakePids hret
    · exact hran ⟨rfl⟩ rfl (by rw [executeWakes, hc])
  | acquireResource =>
    unfold executeAcquire
    dsimp only
    split_ifs with hd
    · exact .acquired ⟨rfl⟩ hc hd
    · exact .acquired ⟨rfl⟩ hc hd
    · exact hrefused ⟨rfl⟩ rfl (by rw [executeWakes, hc]) (by rw [hc]; decide) (by rw [hc]; rfl)
    · exact hran (i := []) ⟨rfl⟩ rfl (by rw [executeWakes, hc])
  | ioWrite =>
    unfold executeIoWrite
    dsimp only
    refine .wrote ?_ ?_ hc _ _
    · exact ⟨rfl⟩
    · rfl

/-- An I/O write blocks its thread, whether or not an event is registered. -/
theorem blocked_registerIo (h : Tables k) (hrun : k.runningThread = some t) {k₁ : Kernel}
    (hk : Prepared k k₁) (pid : ℤ) (path : CString) :
    Blocked k (registerIo (blockThread (k₁.setTcb t TCB.advance) t .ioBlock) pid path) t
      .ioBlock := by
  have hs : (k₁.setTcb t TCB.advance).sched = k.sched.setTcb t TCB.advance := by
    rw [Kernel.setTcb, hk.sched]
  rw [registerIo_rest]
  obtain ⟨hf, hb, hr⟩ := blocked_blockThread h hrun (f := TCB.advance) rfl rfl rfl hs .ioBlock
  exact ⟨hf, hb, hr⟩

/-- Everything a command can do to the threads. -/
theorem executeCommand_cases (h : Tables k) (hrun : k.runningThread = some t) :
    Continued k (executeCommand k t) t (executeWakes k t) ∨
      (executeWakes k t = [] ∧ threadCurrentCommand (k.tcb t) ≠ .compute ∧
        Blocked k (executeCommand k t) t (threadCurrentCommand (k.tcb t)).blockReason) := by
  have hx := commandEffect k t
  generalize executeCommand k t = k' at hx ⊢
  cases hx with
  | ran hk _ =>
    exact Or.inl (continued_wakeThreads h hrun (ident_threadExecute _) (state_threadExecute _)
      (mlfqLevel_threadExecute _) hk.sched hk.threadCount _)
  | refused hk _ hw hc => exact Or.inr ⟨hw, hc, blocked_blockThread_of_sched h hrun hk.sched _⟩
  | acquired hk hc _ =>
    have hw : executeWakes k t = [] := by rw [executeWakes, hc]
    rw [hw]
    exact Or.inl (continued_setTcb h hrun rfl rfl rfl hk.sched hk.threadCount)
  | wrote hk _ hc pid path =>
    have hw : executeWakes k t = [] := by rw [executeWakes, hc]
    rw [hc]
    exact Or.inr ⟨hw, by decide, blocked_registerIo h hrun hk pid path⟩

/-! ### What each command writes besides the threads -/

theorem steady_setTcb (k : Kernel) (t : ℕ) (f : TCB → TCB) : Steady k (k.setTcb t f) :=
  steady_sched k _

theorem steady_executeProduce (k : Kernel) (t : ℕ) :
    Steady { k with sensorBuf := (bufferProduce k.sensorBuf
        (k.currentTick * 100 + (k.tcb t).ownerPid) (k.tcb t).ownerPid).buf }
      (executeProduce k t) := by
  unfold executeProduce
  dsimp only
  split_ifs
  · exact steady_blockThread _ t _
  · exact (steady_setTcb _ t _).trans (steady_wakeThreads _ _)

theorem steady_executeConsume (k : Kernel) (t : ℕ) :
    Steady { k with sensorBuf := (bufferConsume k.sensorBuf (k.tcb t).ownerPid).buf }
      (executeConsume k t) := by
  unfold executeConsume
  dsimp only
  split_ifs
  · exact steady_blockThread _ t _
  · exact (steady_setTcb _ t _).trans (steady_wakeThreads _ _)

theorem steady_executeAcquire (k : Kernel) (t : ℕ) :
    Steady { k with graph := if k.config.deadlockEnabled then
        (deadlockRequest k.graph (k.tcb t).ownerPid (wantedResource k (k.tcb t).ownerPid)).1
      else k.graph } (executeAcquire k t) := by
  have hphase : ∀ (k : Kernel) (f : ℤ → ℤ), Steady k { k with deadlockPhase := f } :=
    fun _ _ => ⟨rfl, fun _ => rfl, fun _ => Iff.rfl, fun _ => Iff.rfl⟩
  unfold executeAcquire
  dsimp only
  split_ifs
  · exact (hphase _ _).trans (steady_setTcb _ t _)
  · exact steady_setTcb _ t _
  · exact steady_blockThread _ t _
  · exact steady_setTcb _ t _

/-- The part of an I/O write before its event is registered. -/
theorem executeIoWrite_eq (k : Kernel) (t : ℕ) :
    ∃ k₁ fs, Steady { k with ioSeq := k.ioSeq + 1, fs := fs } k₁ ∧
      executeIoWrite k t =
        registerIo k₁ (k.tcb t).ownerPid (logPath (k.tcb t).ownerPid k.ioSeq) :=
  ⟨_, _, (steady_setTcb _ t _).trans (steady_blockThread _ t .ioBlock), rfl⟩

theorem calm_executeCommand (k : Kernel) (t : ℕ) : Calm k (executeCommand k t) := by
  have hrest : ∀ {k₁ k' : Kernel}, Calm k k₁ → Steady k₁ k' → Calm k k' :=
    fun h hs => h.trans hs.calm
  unfold executeCommand
  cases threadCurrentCommand (k.tcb t) with
  | compute => exact (steady_setTcb k t _).calm
  | produceData => exact hrest (.of_rest rfl) (steady_executeProduce k t)
  | consumeData => exact hrest (.of_rest rfl) (steady_executeConsume k t)
  | acquireResource => exact hrest (.of_rest rfl) (steady_executeAcquire k t)
  | ioWrite =>
    obtain ⟨k₁, fs, hs, he⟩ := executeIoWrite_eq k t
    have hr : Calm k₁ (executeIoWrite k t) := by
      rw [he, registerIo_rest]
      exact .of_rest rfl
    exact (hrest (.of_rest rfl) hs).trans hr

/-! ## Page faults -/

theorem registerPageFault_rest (k : Kernel) (pid page : ℤ) :
    registerPageFault k pid page = { k with
      pending := (registerPageFault k pid page).pending
      pendingCount := (registerPageFault k pid page).pendingCount } := by
  unfold registerPageFault
  dsimp only
  split
  · rfl
  · split_ifs <;> rfl

theorem calm_registerPageFault (k : Kernel) (pid page : ℤ) :
    Calm k (registerPageFault k pid page) ∧ (registerPageFault k pid page).sched = k.sched := by
  rw [registerPageFault_rest]
  exact ⟨.of_rest rfl, rfl⟩

theorem memAccess_frames (m : PhysicalMemory) (pcb : PCB) (addr : ℤ) :
    (memAccess m pcb addr).mem.frames = m.frames := by
  unfold memAccess
  dsimp only
  split_ifs <;> rfl

/-- Everything the simulation of page faults can do. -/
theorem triggerPageFault_cases (k : Kernel) :
    (∃ pcb addr, triggerPageFault k = { k with mem := (memAccess k.mem pcb addr).mem }) ∨
      triggerPageFault k = k ∨
      ∃ t p pcb addr page, k.runningThread = some t ∧
        k.findProc (k.tcb t).ownerPid = some p ∧ k.config.deadlockEnabled = false ∧
        0 < k.currentTick ∧ k.currentTick % pageFaultInterval = 0 ∧
        triggerPageFault k = registerPageFault
          (blockThread { k with mem := (memAccess k.mem pcb addr).mem } t .pageFault)
          (k.procs p).pid page := by
  unfold triggerPageFault
  split_ifs with hd ht
  · exact Or.inr (Or.inl rfl)
  · exact Or.inr (Or.inl rfl)
  · rw [not_or, not_le, not_not] at ht
    cases hrun : k.runningThread with
    | none => exact Or.inr (Or.inl rfl)
    | some t =>
      cases hp : k.findProc (k.tcb t).ownerPid with
      | none => exact Or.inr (Or.inl (by simp only [hp]))
      | some p =>
        simp only [hp]
        split_ifs
        · exact Or.inr (Or.inl rfl)
        · exact Or.inr (Or.inr ⟨t, p, _, _, _, rfl, hp, eq_false_of_ne_true hd, ht.1, ht.2, rfl⟩)
        · exact Or.inl ⟨_, _, rfl⟩

theorem triggerPageFault_keeps (k : Kernel) :
    (triggerPageFault k).graph = k.graph ∧ (triggerPageFault k).sensorBuf = k.sensorBuf ∧
      (triggerPageFault k).mem.frames = k.mem.frames := by
  rcases triggerPageFault_cases k with ⟨pcb, addr, he⟩ | he | ⟨t, p, pcb, addr, page, -, -, -, -, -, he⟩
  · rw [he]
    exact ⟨rfl, rfl, memAccess_frames _ _ _⟩
  · rw [he]
    exact ⟨rfl, rfl, rfl⟩
  · have hs := steady_blockThread { k with mem := (memAccess k.mem pcb addr).mem } t .pageFault
    rw [he, registerPageFault_rest]
    refine ⟨hs.graph, hs.sensorBuf, ?_⟩
    exact (congrArg PhysicalMemory.frames hs.mem).trans (memAccess_frames _ _ _)

theorem calm_triggerPageFault (k : Kernel) : Calm k (triggerPageFault k) := by
  rcases triggerPageFault_cases k with ⟨pcb, addr, he⟩ | he | ⟨t, p, pcb, addr, page, -, -, -, -, -, he⟩
  · rw [he]
    exact .of_rest rfl
  · rw [he]
    exact .refl k
  · rw [he]
    set k₁ : Kernel := { k with mem := (memAccess k.mem pcb addr).mem }
    have h₁ : Calm k k₁ := .of_rest rfl
    exact (h₁.trans (steady_blockThread k₁ t _).calm).trans (calm_registerPageFault _ _ _).1

/-- The threads stay as they are, or the running thread blocks. -/
theorem triggerPageFault_threads (h : Tables k) :
    (triggerPageFault k).sched = k.sched ∨
      ∃ t, k.runningThread = some t ∧ Blocked k (triggerPageFault k) t .pageFault := by
  rcases triggerPageFault_cases k with
    ⟨pcb, addr, he⟩ | he | ⟨t, p, pcb, addr, page, hrun, -, -, -, -, he⟩
  · exact Or.inl (by rw [he])
  · exact Or.inl (by rw [he])
  · right
    have hb : Blocked k (blockThread { k with mem := (memAccess k.mem pcb addr).mem } t .pageFault) t
        .pageFault := blocked_blockThread_of_sched h hrun (by rfl) .pageFault
    have hs := (calm_registerPageFault
      (blockThread { k with mem := (memAccess k.mem pcb addr).mem } t .pageFault)
      (k.procs p).pid page).2
    rw [← he] at hs
    exact ⟨t, hrun, hs ▸ hb.frame, (congrArg (fun s => (s.tcb t).state) hs).trans hb.blocked,
      (congrArg (fun s => (s.tcb t).waitReason) hs).trans hb.waitReason⟩

/-! ## Waking the waiters of the buffer -/

/-- The ids that `wake_buffer_waiters` takes out of the queues. -/
def bufferWakes (b : BoundedBuffer) : List ℤ :=
  (if 0 < b.count then (condBroadcast b.notEmpty maxProcs).2 else []) ++
    (if b.count < ringBufferSize then (condBroadcast b.notFull maxProcs).2 else []) ++
    if !b.mutex.locked ∧ 0 < b.mutex.waitQueue.length then [b.mutex.waitQueue.headD 0] else []

/-- The buffer it leaves. -/
def bufferWoken (b : BoundedBuffer) : BoundedBuffer :=
  { b with
    notEmpty := if 0 < b.count then ⟨[]⟩ else b.notEmpty
    notFull := if b.count < ringBufferSize then ⟨[]⟩ else b.notFull
    mutex := if !b.mutex.locked ∧ 0 < b.mutex.waitQueue.length then
        { b.mutex with waitQueue := b.mutex.waitQueue.tail }
      else b.mutex }

/-- From `k` to `k'` the buffer became `b`, and `ids` were woken. -/
structure Drained (k k' : Kernel) (b : BoundedBuffer) (ids : List ℤ) : Prop where
  steady : Steady { k with sensorBuf := b } k'
  threads : ∀ {n}, k.sched.Disciplined n → k.threadCount = n →
    Enqueue k.sched k'.sched n (resolvedBy k ids)

theorem Drained.of_wake (k : Kernel) (b : BoundedBuffer) (ids : List ℤ) :
    Drained k (wakeThreads { k with sensorBuf := b } ids) b ids := by
  refine ⟨steady_wakeThreads _ ids, fun hd hn => ?_⟩
  subst hn
  exact enqueue_wakeThreads ids (k := { k with sensorBuf := b }) hd

theorem Drained.refl (k : Kernel) : Drained k k k.sensorBuf [] :=
  ⟨Steady.refl k, fun hd _ => (Enqueue.refl hd).congr fun u => by rw [resolvedBy_nil]⟩

theorem Drained.trans {k k' k'' : Kernel} {b b' : BoundedBuffer} {ids ids' : List ℤ}
    (h : Drained k k' b ids) (h' : Drained k' k'' b' ids') : Drained k k'' b' (ids ++ ids') := by
  have hs := h.steady
  have hs' : Steady { k with sensorBuf := b' } { k' with sensorBuf := b' } := by
    refine ⟨?_, hs.procs, hs.new, hs.terminated⟩
    rw [hs.rest]
  refine ⟨hs'.trans h'.steady, fun hd hn => ?_⟩
  have ha := h.threads hd hn
  have hn' : k'.threadCount = k.threadCount := hs.threadCount
  have hb := h'.threads ha.frame.disciplined (hn'.trans hn)
  refine (ha.trans hb).congr fun u => ?_
  simp only [Set.mem_union, resolvedBy, Set.mem_ofPred_eq, List.mem_append,
    findThread_congr hn' ha.frame.tid]
  by_cases hu : u ∈ resolvedBy k ids
  · obtain ⟨⟨id, hid, hf⟩, hbl⟩ := hu
    exact iff_of_true (Or.inl ⟨⟨id, hid, hf⟩, hbl⟩) ⟨⟨id, Or.inl hid, hf⟩, hbl⟩
  · have hsame : k'.tcb u = k.tcb u := ha.same u hu
    rw [hsame]
    simp only [resolvedBy, Set.mem_ofPred_eq] at hu
    constructor
    · rintro (hw | ⟨⟨id, hid, hf⟩, hbl⟩)
      · exact absurd hw hu
      · exact ⟨⟨id, Or.inr hid, hf⟩, hbl⟩
    · rintro ⟨⟨id, hid | hid, hf⟩, hbl⟩
      · exact absurd ⟨⟨id, hid, hf⟩, hbl⟩ hu
      · exact Or.inr ⟨⟨id, hid, hf⟩, hbl⟩

theorem drained_wakeConsumers (k : Kernel) :
    Drained k (wakeConsumers k)
      { k.sensorBuf with notEmpty := if 0 < k.sensorBuf.count then ⟨[]⟩ else k.sensorBuf.notEmpty }
      (if 0 < k.sensorBuf.count then (condBroadcast k.sensorBuf.notEmpty maxProcs).2 else []) := by
  unfold wakeConsumers
  split_ifs
  · exact .of_wake k _ _
  · exact .refl k

theorem drained_wakeProducers (k : Kernel) :
    Drained k (wakeProducers k)
      { k.sensorBuf with
        notFull := if k.sensorBuf.count < ringBufferSize then ⟨[]⟩ else k.sensorBuf.notFull }
      (if k.sensorBuf.count < ringBufferSize then (condBroadcast k.sensorBuf.notFull maxProcs).2
        else []) := by
  unfold wakeProducers
  split_ifs
  · exact .of_wake k _ _
  · exact .refl k

theorem drained_wakeLocker (k : Kernel) :
    Drained k (wakeLocker k)
      { k.sensorBuf with
        mutex := if !k.sensorBuf.mutex.locked ∧ 0 < k.sensorBuf.mutex.waitQueue.length then
            { k.sensorBuf.mutex with waitQueue := k.sensorBuf.mutex.waitQueue.tail }
          else k.sensorBuf.mutex }
      (if !k.sensorBuf.mutex.locked ∧ 0 < k.sensorBuf.mutex.waitQueue.length then
        [k.sensorBuf.mutex.waitQueue.headD 0] else []) := by
  unfold wakeLocker
  split_ifs
  · exact .of_wake k _ _
  · exact .refl k

theorem drained_wakeBufferWaiters (k : Kernel) :
    Drained k (wakeBufferWaiters k) (bufferWoken k.sensorBuf) (bufferWakes k.sensorBuf) := by
  have h₁ := drained_wakeConsumers k
  have h₂ := drained_wakeProducers (wakeConsumers k)
  have h₃ := drained_wakeLocker (wakeProducers (wakeConsumers k))
  -- no round touches what a later one looks at
  rw [h₁.steady.sensorBuf] at h₂
  rw [h₂.steady.sensorBuf] at h₃
  exact (h₁.trans h₂).trans h₃

theorem Drained.calm {k k' : Kernel} {b : BoundedBuffer} {ids : List ℤ} (h : Drained k k' b ids) :
    Calm k k' := by
  have hb : Calm k { k with sensorBuf := b } := .of_rest rfl
  exact hb.trans h.steady.calm

/-! ## Bookkeeping -/

theorem calm_trackWaitTime (k : Kernel) : Calm k (trackWaitTime k) := by
  refine ⟨rfl, rfl, rfl, rfl, fun p => ?_, fun p => ?_, fun p => ?_⟩
  all_goals
    unfold trackWaitTime
    dsimp only
    split_ifs <;> rfl

theorem sched_snapshotSync (k : Kernel) : (snapshotSync k).sched = k.sched := by
  unfold snapshotSync
  split_ifs
  · exact List.foldlRecOn (motive := fun k' : Kernel => k'.sched = k.sched) _ _ rfl
      fun k' hk' p _ => by split_ifs <;> simp [hk']
  · rfl

end FleetOS
