import FleetOS.Wakeups

/-!
# The process and the thread table

What is true of the two tables in every state (`Tables`) : pids and tids are distinct, every
thread belongs to a process, the scheduler is disciplined, and the threads of a process that
has not arrived are ready and in no queue. `tables_kernelInit` is the start of a run.
-/

namespace FleetOS

structure Tables (k : Kernel) : Prop where
  disciplined : k.sched.Disciplined k.threadCount
  pids : DistinctPids k.procs k.procCount
  pid_range : ∀ p < k.procCount, validPid (k.procs p).pid
  tids : ∀ t < k.threadCount, ∀ u < k.threadCount, (k.tcb t).tid = (k.tcb u).tid → t = u
  owner : ∀ t < k.threadCount, ∃ p < k.procCount, (k.procs p).pid = (k.tcb t).ownerPid
  fresh : ∀ p < k.procCount, (k.procs p).state = .new → ∀ t < k.threadCount,
    (k.tcb t).ownerPid = (k.procs p).pid → k.sched.Parked t ∧ (k.tcb t).state = .ready

namespace Tables

variable {k k' : Kernel}

/-- The thread found for its own id. -/
theorem findThread_tid (h : Tables k) {t : ℕ} (ht : t < k.threadCount) :
    findThread k (k.tcb t).tid = some t := by
  cases hf : findThread k (k.tcb t).tid with
  | none => simpa using List.find?_eq_none.mp hf t (mem_threads.mpr ht)
  | some u =>
    obtain ⟨hu, he⟩ := findThread_eq_some hf
    rw [h.tids u hu t ht he]

theorem findProc_owner (h : Tables k) {t : ℕ} (ht : t < k.threadCount) :
    ∃ p < k.procCount, (k.procs p).pid = (k.tcb t).ownerPid ∧
      k.findProc (k.tcb t).ownerPid = some p := by
  obtain ⟨p, hp, he⟩ := h.owner t ht
  exact ⟨p, hp, he, he ▸ findProc_pid h.pids hp⟩

theorem owner_valid (h : Tables k) {t : ℕ} (ht : t < k.threadCount) :
    validPid (k.tcb t).ownerPid := by
  obtain ⟨p, hp, he⟩ := h.owner t ht
  exact he ▸ h.pid_range p hp

/-- A thread that is not ready belongs to a process that has arrived. -/
theorem arrived (h : Tables k) {t p : ℕ} (ht : t < k.threadCount) (hr : (k.tcb t).state ≠ .ready)
    (hp : p < k.procCount) (hnew : (k.procs p).state = .new) :
    (k.tcb t).ownerPid ≠ (k.procs p).pid :=
  fun he => hr (h.fresh p hp hnew t ht he).2

/-- What a part of a tick has to respect. -/
theorem step (h : Tables k) {touched : Set ℕ} (hn : k'.threadCount = k.threadCount)
    (hpc : k'.procCount = k.procCount) (hpid : ∀ p, (k'.procs p).pid = (k.procs p).pid)
    (hf : Scheduler.Frame k.sched k'.sched k.threadCount touched)
    (hnew : ∀ p < k.procCount, (k'.procs p).state = .new → (k.procs p).state = .new ∧
      ∀ t ∈ touched, t < k.threadCount → (k.tcb t).ownerPid ≠ (k.procs p).pid) : Tables k' := by
  have htid : ∀ u, (k'.tcb u).tid = (k.tcb u).tid := hf.tid
  have howner : ∀ u, (k'.tcb u).ownerPid = (k.tcb u).ownerPid := hf.ownerPid
  refine ⟨hn ▸ hf.disciplined, ?_, ?_, ?_, ?_, ?_⟩
  · intro i hi j hj
    rw [hpid, hpid]
    exact h.pids i (hpc ▸ hi) j (hpc ▸ hj)
  · intro p hp
    rw [hpid]
    exact h.pid_range p (hpc ▸ hp)
  · intro t ht u hu
    rw [htid, htid]
    exact h.tids t (hn ▸ ht) u (hn ▸ hu)
  · intro t ht
    obtain ⟨p, hp, he⟩ := h.owner t (hn ▸ ht)
    exact ⟨p, hpc ▸ hp, by rw [hpid, howner, he]⟩
  · intro p hp hnew' t ht he
    rw [hpid, howner] at he
    obtain ⟨hn', hW⟩ := hnew p (hpc ▸ hp) hnew'
    have ht' : t < k.threadCount := hn ▸ ht
    obtain ⟨hpark, hready⟩ := h.fresh p (hpc ▸ hp) hn' t ht' he
    obtain ⟨hsame, hpark'⟩ := hf.parked t (fun hm => hW t hm ht' he) hpark
    have hstate : (k'.tcb t).state = (k.tcb t).state := congrArg TCB.state hsame
    exact ⟨hpark', hstate.trans hready⟩

/-- A part of a tick that lets no process arrive and touches no thread that is ready. -/
theorem calm (h : Tables k) (hs : Calm k k') {touched : Set ℕ}
    (hf : Scheduler.Frame k.sched k'.sched k.threadCount touched)
    (ht : ∀ t ∈ touched, t < k.threadCount → (k.tcb t).state ≠ .ready) : Tables k' :=
  h.step hs.threadCount hs.procCount hs.pid hf fun p hp hnew =>
    have hnew := (hs.new p).mp hnew
    ⟨hnew, fun t hm htn => h.arrived htn (ht t hm htn) hp hnew⟩

/-- A part of a tick that touches no thread. -/
theorem idle (h : Tables k) (hs : Calm k k')
    (hf : Scheduler.Frame k.sched k'.sched k.threadCount ∅) : Tables k' :=
  h.calm hs hf fun t ht => absurd ht (Set.notMem_empty t)

end Tables

/-! ## The start of a run -/

/-- The threads a list of processes of the workload has, with their owners. -/
def threadIds (l : List ProcessSpec) : List (ℤ × ℤ) :=
  l.flatMap fun p => p.threads.map fun s => (s.tid, p.pid)

/-- The thread table after the threads `ids` were made. -/
def Kernel.ids (k : Kernel) : List (ℤ × ℤ) :=
  (List.range k.threadCount).map fun t => ((k.tcb t).tid, (k.tcb t).ownerPid)

/-- What `kernel_init` keeps true once the threads `ids` are made and the processes below `i`
are set up. -/
structure Loading (w : List ProcessSpec) (ids : List (ℤ × ℤ)) (i : ℕ) (k : Kernel) : Prop where
  procCount : k.procCount = w.length
  ids_eq : k.ids = ids
  pid : ∀ p (hp : p < w.length), (k.procs p).pid = w[p].pid
  level : ∀ p < w.length, (k.procs p).mlfqLevel = -1
  alive : ∀ p < w.length, (k.procs p).state ≠ .terminated
  waiting : ∀ p < w.length, i ≤ p → (k.procs p).state = .new
  disciplined : k.sched.Disciplined k.threadCount
  current : k.sched.currentThread = none
  ready : ∀ t < k.threadCount, (k.tcb t).state = .ready
  fresh : ∀ p < w.length, (k.procs p).state = .new → ∀ t < k.threadCount,
    (k.tcb t).ownerPid = (k.procs p).pid → k.sched.Parked t

namespace Loading

variable {w : List ProcessSpec} {ids : List (ℤ × ℤ)} {i : ℕ} {k : Kernel}

theorem threadCount (h : Loading w ids i k) : k.threadCount = ids.length := by
  rw [← h.ids_eq, Kernel.ids, List.length_map, List.length_range]

theorem ids_get (h : Loading w ids i k) {t : ℕ} (ht : t < k.threadCount) :
    ids[t]? = some ((k.tcb t).tid, (k.tcb t).ownerPid) := by
  simp [← h.ids_eq, Kernel.ids, ht]

end Loading

theorem setProc_self (k : Kernel) (p : ℕ) (f : PCB → PCB) :
    (k.setProc p f).procs p = f (k.procs p) :=
  Function.update_self _ _ _

theorem setProc_of_ne (k : Kernel) {p q : ℕ} (h : q ≠ p) (f : PCB → PCB) :
    (k.setProc p f).procs q = k.procs q :=
  Function.update_of_ne h _ _

/-- Making a process ready changes no pid. -/
theorem pid_setReady (k : Kernel) (p q : ℕ) :
    ((k.setProc p fun c => pcbSetState c .ready).procs q).pid = (k.procs q).pid := by
  by_cases hq : q = p
  · rw [hq, setProc_self]
    rfl
  · rw [setProc_of_ne k hq]

/-- The other processes that are new stay so. -/
theorem new_setReady {k : Kernel} {p q : ℕ}
    (h : ((k.setProc p fun c => pcbSetState c .ready).procs q).state = .new) :
    q ≠ p ∧ (k.procs q).state = .new := by
  have hq : q ≠ p := by
    rintro rfl
    rw [setProc_self] at h
    cases h
  rw [setProc_of_ne k hq] at h
  exact ⟨hq, h⟩

/-- What the loader reads of a PCB. -/
def PCB.identity (c : PCB) : ℤ × ℤ × ProcessState := (c.pid, c.mlfqLevel, c.state)

theorem identity_memAllocatePage (m : PhysicalMemory) (c : PCB) (page : ℤ) (ei : EvictionInfo) :
    (memAllocatePage m c page ei).pcb.identity = c.identity := by
  unfold memAllocatePage
  dsimp only
  split_ifs <;> rfl

theorem identity_setProc {k : Kernel} {p : ℕ} {f : PCB → PCB}
    (hf : (f (k.procs p)).identity = (k.procs p).identity) (q : ℕ) :
    ((k.setProc p f).procs q).identity = (k.procs q).identity := by
  by_cases hq : q = p
  · rw [hq, setProc_self, hf]
  · rw [setProc_of_ne k hq]

theorem identity_bootPage (p : ℕ) (k : Kernel) (page : ℤ) (q : ℕ) :
    ((bootPage p k page).procs q).identity = (k.procs q).identity :=
  identity_setProc (f := fun _ => (memAllocatePage k.mem (k.procs p) page ⟨false, 0, 0, 0⟩).pcb)
    (identity_memAllocatePage _ _ _ _) q

/-- The TCB that is made for a thread of process `c`. -/
def bootTcb (c : PCB) (spec : ThreadSpec) (fresh : TCB) : TCB :=
  { threadCreate fresh spec.tid c.pid spec.commands spec.commands.length spec.burst with
    priority := c.priority
    mlfqLevel := c.mlfqLevel }

theorem sched_bootThread (p : ℕ) (k : Kernel) (spec : ThreadSpec) :
    (bootThread p k spec).sched = k.sched.setTcb k.threadCount (bootTcb (k.procs p) spec) :=
  rfl

theorem pid_injective {w : List ProcessSpec} (hd : (w.map ProcessSpec.pid).Nodup) {p q : ℕ}
    (hp : p < w.length) (hq : q < w.length) (he : w[p].pid = w[q].pid) : p = q :=
  (List.getElem?_inj (List.length_map ProcessSpec.pid ▸ hp) hd).mp (by simp [hp, hq, he])

namespace Loading

variable {w : List ProcessSpec} {ids : List (ℤ × ℤ)} {i : ℕ} {k k' : Kernel}

theorem congr (h : Loading w ids i k) (hpc : k'.procCount = k.procCount)
    (hn : k'.threadCount = k.threadCount) (hs : k'.sched = k.sched)
    (hid : ∀ p, (k'.procs p).identity = (k.procs p).identity) : Loading w ids i k' := by
  have hpid : ∀ p, (k'.procs p).pid = (k.procs p).pid := fun p => congrArg Prod.fst (hid p)
  have hlevel : ∀ p, (k'.procs p).mlfqLevel = (k.procs p).mlfqLevel :=
    fun p => congrArg (fun x => x.2.1) (hid p)
  have hstate : ∀ p, (k'.procs p).state = (k.procs p).state :=
    fun p => congrArg (fun x => x.2.2) (hid p)
  have hids : k'.ids = k.ids := by simp only [Kernel.ids, Kernel.tcb, hn, hs]
  refine ⟨hpc.trans h.procCount, hids.trans h.ids_eq, fun p hp => (hpid p).trans (h.pid p hp),
    fun p hp => (hlevel p).trans (h.level p hp), fun p hp => hstate p ▸ h.alive p hp,
    fun p hp hip => (hstate p).trans (h.waiting p hp hip), hn ▸ hs ▸ h.disciplined,
    hs ▸ h.current, fun t ht => ?_, fun p hp hnew t ht he => ?_⟩
  · simp only [Kernel.tcb, hs]
    exact h.ready t (hn ▸ ht)
  · rw [hpid] at he
    simp only [Kernel.tcb, hs] at he ⊢
    exact h.fresh p hp (hstate p ▸ hnew) t (hn ▸ ht) he

theorem addThread (h : Loading w ids i k) (hi : i < w.length) (hlen : ids.length < maxThreads)
    (spec : ThreadSpec) :
    Loading w (ids ++ [(spec.tid, w[i].pid)]) i (bootThread i k spec) := by
  set t := k.threadCount with ht
  have hother : ∀ u, u ≠ t → (bootThread i k spec).tcb u = k.tcb u := by
    intro u hu
    rw [Kernel.tcb, sched_bootThread, Scheduler.setTcb_of_ne k.sched hu]
    rfl
  have hself : (bootThread i k spec).tcb t = bootTcb (k.procs i) spec (k.tcb t) := by
    rw [Kernel.tcb, sched_bootThread, Scheduler.setTcb_self]
    rfl
  have hd : (bootThread i k spec).sched.Disciplined (t + 1) := by
    rw [sched_bootThread]
    refine h.disciplined.extend (h.threadCount ▸ hlen) rfl ?_
    change -1 ≤ (k.procs i).mlfqLevel ∧ (k.procs i).mlfqLevel ≤ 2
    rw [h.level i hi]
    decide
  have hready : ∀ u < t + 1, ((bootThread i k spec).tcb u).state = .ready := by
    intro u hu
    rcases Nat.lt_succ_iff_lt_or_eq.mp hu with hu | rfl
    · rw [hother u hu.ne]
      exact h.ready u hu
    · rw [hself]
      rfl
  refine ⟨h.procCount, ?_, h.pid, h.level, h.alive, h.waiting, hd, h.current, hready,
    fun p hp hnew u hu he => ?_⟩
  · have hn : (bootThread i k spec).threadCount = t + 1 := rfl
    rw [Kernel.ids, hn, List.range_succ, List.map_append, ← h.ids_eq]
    congr 1
    · refine List.map_congr_left fun u hu => ?_
      rw [hother u (List.mem_range.mp hu).ne]
    · rw [List.map_singleton, hself, ← h.pid i hi]
      rfl
  · have hrun : ((bootThread i k spec).tcb u).state ≠ .running := by
      rw [hready u hu]
      decide
    rcases Nat.lt_succ_iff_lt_or_eq.mp hu with hu | rfl
    · rw [hother u hu.ne] at he
      exact ⟨(h.fresh p hp hnew u hu he).1, hrun⟩
    · exact ⟨fun hm => (h.disciplined.queued_lt t hm).ne rfl, hrun⟩

theorem addThreads (hi : i < w.length) : ∀ (specs : List ThreadSpec) {ids : List (ℤ × ℤ)}
    {k : Kernel}, Loading w ids i k → ids.length + specs.length ≤ maxThreads →
      Loading w (ids ++ specs.map fun s => (s.tid, w[i].pid)) i
        (specs.foldl (bootThread i) k)
  | [], ids, k, h, _ => by simpa using h
  | spec :: specs, ids, k, h, hlen => by
    rw [List.length_cons] at hlen
    have h₁ := h.addThread hi (by omega) spec
    have h₂ := addThreads hi specs h₁ (by simp only [List.length_append, List.length_singleton]; omega)
    simpa using h₂

/-- The threads from `first` on are those of the process that is being loaded, and are queued. -/
theorem enqueue (h : Loading w ids i k) (hi : i < w.length) {first : ℕ}
    (hids : ∀ t, first ≤ t → t < k.threadCount → (k.tcb t).ownerPid = (k.procs i).pid) :
    Scheduler.Enqueue k.sched
      ((List.range' first (k.threadCount - first)).foldl
        (fun k t => ({ k with sched := schedulerAdd k.sched t } : Kernel))
        (k.setProc i fun c => pcbSetState c .ready)).sched k.threadCount
      {u | first ≤ u ∧ u < k.threadCount} := by
  have hmem : ∀ t, t ∈ List.range' first (k.threadCount - first) ↔
      first ≤ t ∧ t < k.threadCount := by
    intro t
    rw [List.mem_range'_1]
    omega
  have hq := enqueue_foldl (f := fun k t => { k with sched := schedulerAdd k.sched t })
    (C := fun _ => True) (n := k.threadCount)
    (fun k t hd ht _ hp hc => Scheduler.enqueue_add hd ht hp hc)
    (List.range' first (k.threadCount - first)) (k.setProc i fun c => pcbSetState c .ready)
    h.disciplined (List.nodup_range' ..) fun t ht => by
      obtain ⟨hle, hlt⟩ := (hmem t).mp ht
      refine ⟨hlt, fun _ => ⟨h.fresh i hi (h.waiting i hi le_rfl) t hlt (hids t hle hlt), ?_⟩⟩
      change k.sched.currentThread ≠ some t
      rw [h.current]
      exact (Option.some_ne_none t).symm
  simp only [if_true] at hq
  refine hq.congr fun u => ?_
  simp only [Set.mem_ofPred_eq, hmem, and_true]

/-- A process that has arrived at tick `0` : its threads are the last of the table. -/
theorem queue (h : Loading w ids i k) (hi : i < w.length)
    (hd : (w.map ProcessSpec.pid).Nodup) {first : ℕ}
    (hids : ∀ t, first ≤ t → t < k.threadCount → (k.tcb t).ownerPid = (k.procs i).pid) :
    Loading w ids (i + 1)
      ((List.range' first (k.threadCount - first)).foldl
        (fun k t => { k with sched := schedulerAdd k.sched t })
        (k.setProc i fun c => pcbSetState c .ready)) := by
  have hq := h.enqueue hi hids
  set k₁ := k.setProc i fun c => pcbSetState c .ready with hk₁
  set k₂ := (List.range' first (k.threadCount - first)).foldl
    (fun k t => ({ k with sched := schedulerAdd k.sched t } : Kernel)) k₁ with hk₂
  have hst : Steady k₁ k₂ := steady_foldl (fun k t => steady_sched k _) _ k₁
  have hother : ∀ p, p ≠ i → k₁.procs p = k.procs p := fun p hp => setProc_of_ne k hp _
  have hself : k₁.procs i = pcbSetState (k.procs i) .ready := setProc_self k i _
  have hpid : ∀ p, (k₂.procs p).pid = (k.procs p).pid :=
    fun p => (hst.pid p).trans (pid_setReady k i p)
  have hn : k₂.threadCount = k.threadCount := hst.threadCount
  have htid : ∀ u, (k₂.tcb u).tid = (k.tcb u).tid := hq.frame.tid
  have howner : ∀ u, (k₂.tcb u).ownerPid = (k.tcb u).ownerPid := hq.frame.ownerPid
  refine ⟨hst.procCount.trans h.procCount, ?_, fun p hp => (hpid p).trans (h.pid p hp),
    fun p hp => ?_, fun p hp => ?_, fun p hp hip => ?_, ?_, hq.current.trans h.current,
    fun t ht => ?_, fun p hp hnew' t ht he => ?_⟩
  · rw [← h.ids_eq]
    simp only [Kernel.ids, hn, htid, howner]
  · rw [hst.procs p, ← h.level p hp]
    change (k₁.procs p).mlfqLevel = _
    by_cases hpi : p = i
    · rw [hpi, hself]
      rfl
    · rw [hother p hpi]
  · intro hterm
    have hterm := (hst.terminated p).mp hterm
    by_cases hpi : p = i
    · rw [hpi, hself] at hterm
      cases hterm
    · exact h.alive p hp (hother p hpi ▸ hterm)
  · rw [hst.new, hother p (by omega)]
    exact h.waiting p hp (by omega)
  · rw [hn]
    exact hq.frame.disciplined
  · by_cases hle : first ≤ t
    · exact hq.ready t ⟨hle, hn ▸ ht⟩
    · have hsame : k₂.tcb t = k.tcb t := hq.same t fun hm => hle hm.1
      rw [hsame]
      exact h.ready t (hn ▸ ht)
  · obtain ⟨hpi, hnew⟩ := new_setReady ((hst.new p).mp hnew')
    rw [hpid, howner] at he
    have ht : t < k.threadCount := hn ▸ ht
    have hpark := h.fresh p hp hnew t ht he
    refine (hq.frame.parked t (fun hm => ?_) hpark).2
    have hsame := he.symm.trans (hids t hm.1 ht)
    rw [h.pid p hp, h.pid i hi] at hsame
    exact hpi (pid_injective hd hp hi hsame)

end Loading

namespace Loading

variable {w : List ProcessSpec} {i : ℕ} {k : Kernel}

theorem threadIds_take_succ (hi : i < w.length) :
    threadIds (w.take (i + 1)) =
      threadIds (w.take i) ++ w[i].threads.map fun s => (s.tid, w[i].pid) := by
  rw [List.take_succ_eq_append_getElem hi, threadIds, threadIds, List.flatMap_append,
    List.flatMap_singleton]

theorem length_threadIds_take_le (hw : ValidWorkload w) (i : ℕ) :
    (threadIds (w.take i)).length ≤ maxThreads := by
  have hsub : (threadIds (w.take i)).length ≤ (threadIds w).length := by
    conv_rhs => rw [← List.take_append_drop i w]
    rw [threadIds, threadIds, List.flatMap_append, List.length_append]
    exact Nat.le_add_right _ _
  have he : (threadIds w).length = (w.flatMap ProcessSpec.threads).length := by
    simp [threadIds, List.length_flatMap]
  exact hsub.trans (he ▸ hw.threads_le)

/-- One round of the loop of `kernel_init`. -/
theorem process (hw : ValidWorkload w) (hi : i < w.length)
    (h : Loading w (threadIds (w.take i)) i k) :
    Loading w (threadIds (w.take (i + 1))) (i + 1) (bootProcess k (w[i], i)) := by
  set k₁ := k.setProc i fun c => { c with arrivalTime := w[i].arrivalTime } with hk₁
  set k₂ : Kernel :=
    { k₁ with graph := deadlockSetPriority k₁.graph (k₁.procs i).pid (k₁.procs i).priority } with hk₂
  set k₃ := bootPage i (bootPage i k₂ 0) 1 with hk₃
  set k₄ := w[i].threads.foldl (bootThread i) k₃ with hk₄
  have h₁ : Loading w (threadIds (w.take i)) i k₃ := by
    refine h.congr rfl rfl rfl fun p => ?_
    rw [identity_bootPage, identity_bootPage]
    exact identity_setProc (f := fun c => { c with arrivalTime := w[i].arrivalTime }) rfl p
  have hlen := length_threadIds_take_le hw (i + 1)
  rw [threadIds_take_succ hi, List.length_append, List.length_map] at hlen
  have h₂ := addThreads hi w[i].threads h₁ hlen
  rw [← threadIds_take_succ hi] at h₂
  have hn : k₄.threadCount = k₃.threadCount + w[i].threads.length := by
    rw [h₂.threadCount, h₁.threadCount, threadIds_take_succ hi, List.length_append, List.length_map]
  have hids : ∀ t, k₃.threadCount ≤ t → t < k₄.threadCount →
      (k₄.tcb t).ownerPid = (k₄.procs i).pid := by
    intro t ht₃ ht₄
    have hget := h₂.ids_get ht₄
    rw [threadIds_take_succ hi, List.getElem?_append_right (h₁.threadCount ▸ ht₃),
      List.getElem?_map, Option.map_eq_some_iff] at hget
    obtain ⟨s, -, hs⟩ := hget
    rw [h₂.pid i hi]
    exact (congrArg Prod.snd hs).symm
  have hboot : bootProcess k (w[i], i) =
      if (k₄.procs i).arrivalTime = 0 then
        (List.range' k₃.threadCount w[i].threads.length).foldl
          (fun k t => { k with sched := schedulerAdd k.sched t })
          (k₄.setProc i fun c => pcbSetState c .ready)
      else k₄ := rfl
  rw [hboot]
  split_ifs
  · have hq := h₂.queue hi hw.pids hids
    rwa [hn, Nat.add_sub_cancel_left] at hq
  · exact ⟨h₂.procCount, h₂.ids_eq, h₂.pid, h₂.level, h₂.alive, fun p hp hip =>
      h₂.waiting p hp (by omega), h₂.disciplined, h₂.current, h₂.ready, h₂.fresh⟩

theorem processes (hw : ValidWorkload w) : ∀ (l : List ProcessSpec) (i : ℕ) (k : Kernel),
    w.drop i = l → Loading w (threadIds (w.take i)) i k →
      Loading w (threadIds w) w.length ((l.zipIdx i).foldl bootProcess k)
  | [], i, k, hl, h => by
    have hi : w.length ≤ i := by simpa using hl
    rw [List.take_of_length_le hi] at h
    exact ⟨h.procCount, h.ids_eq, h.pid, h.level, h.alive, fun p hp hip => absurd hp (by omega),
      h.disciplined, h.current, h.ready, h.fresh⟩
  | spec :: l, i, k, hl, h => by
    have hi : i < w.length := by
      by_contra hge
      rw [List.drop_of_length_le (not_lt.mp hge)] at hl
      cases hl
    rw [List.drop_eq_getElem_cons hi] at hl
    obtain ⟨hspec, htail⟩ := List.cons.inj hl
    subst hspec
    exact processes hw l (i + 1) _ htail (h.process hw hi)

/-- The tables once everything is set up. -/
theorem tables (hw : ValidWorkload w) (h : Loading w (threadIds w) w.length k) : Tables k := by
  have hpid := h.pid
  have hpc : ∀ {p}, p < k.procCount → p < w.length := fun hp => h.procCount ▸ hp
  refine ⟨h.disciplined, fun p hp q hq he => ?_, fun p hp => ?_, fun t ht u hu he => ?_,
    fun t ht => ?_, fun p hp hnew t ht he => ⟨h.fresh p (hpc hp) hnew t ht he, h.ready t ht⟩⟩
  · rw [hpid p (hpc hp), hpid q (hpc hq)] at he
    exact pid_injective hw.pids (hpc hp) (hpc hq) he
  · rw [hpid p (hpc hp)]
    exact hw.pid_range _ (List.getElem_mem (hpc hp))
  · have htids : (threadIds w).map Prod.fst = (w.flatMap ProcessSpec.threads).map ThreadSpec.tid := by
      simp [threadIds, List.map_flatMap, Function.comp_def]
    have hnd : ((threadIds w).map Prod.fst).Nodup := htids ▸ hw.tids
    have hget : ∀ v < k.threadCount, ((threadIds w).map Prod.fst)[v]? = some (k.tcb v).tid :=
      fun v hv => by rw [List.getElem?_map, h.ids_get hv, Option.map_some]
    have hlt : t < ((threadIds w).map Prod.fst).length := by
      rw [List.length_map, ← h.threadCount]
      exact ht
    exact (List.getElem?_inj hlt hnd).mp (by rw [hget t ht, hget u hu, he])
  · have hmem := List.mem_of_getElem? (h.ids_get ht)
    simp only [threadIds, List.mem_flatMap, List.mem_map, Prod.mk.injEq] at hmem
    obtain ⟨spec, hspec, s, -, -, he⟩ := hmem
    obtain ⟨p, hp, rfl⟩ := List.getElem_of_mem hspec
    exact ⟨p, h.procCount ▸ hp, (hpid p hp).trans he⟩

end Loading

/-- What the loader leaves alone. -/
def Loaded (k k' : Kernel) : Prop :=
  k' = { k with
    procs := k'.procs
    sched := k'.sched
    threadCount := k'.threadCount
    mem := k'.mem
    graph := { k.graph with priority := k'.graph.priority } }

theorem Loaded.trans {k k' k'' : Kernel} (h : Loaded k k') (h' : Loaded k' k'') : Loaded k k'' := by
  unfold Loaded at h h' ⊢
  rw [h', h]

theorem loaded_foldl {α : Type*} {f : Kernel → α → Kernel} (hf : ∀ k a, Loaded k (f k a)) :
    ∀ (l : List α) (k : Kernel), Loaded k (l.foldl f k)
  | [], _ => rfl
  | a :: l, k => (hf k a).trans (loaded_foldl hf l (f k a))

theorem loaded_bootProcess (k : Kernel) (spec : ProcessSpec × ℕ) :
    Loaded k (bootProcess k spec) := by
  have hset : ∀ k p f, Loaded k (Kernel.setProc k p f) := fun _ _ _ => rfl
  have hpage : ∀ p k page, Loaded k (bootPage p k page) := fun _ _ _ => rfl
  have hthread : ∀ k s, Loaded k (bootThread spec.2 k s) := fun _ _ => rfl
  have hadd : ∀ (k : Kernel) (t : ℕ), Loaded k { k with sched := schedulerAdd k.sched t } :=
    fun _ _ => rfl
  have hprio : ∀ (k : Kernel) pid p, Loaded k { k with graph := deadlockSetPriority k.graph pid p } := by
    intro k pid p
    unfold Loaded deadlockSetPriority
    split_ifs <;> rfl
  set k₁ := k.setProc spec.2 fun c => { c with arrivalTime := spec.1.arrivalTime }
  set k₂ : Kernel := { k₁ with
    graph := deadlockSetPriority k₁.graph (k₁.procs spec.2).pid (k₁.procs spec.2).priority }
  set k₃ := bootPage spec.2 (bootPage spec.2 k₂ 0) 1
  set k₄ := spec.1.threads.foldl (bootThread spec.2) k₃
  have h₃ : Loaded k k₃ := ((hset k _ _).trans (hprio k₁ _ _)).trans
    ((hpage spec.2 k₂ 0).trans (hpage spec.2 _ 1))
  have h₄ : Loaded k k₄ := h₃.trans (loaded_foldl hthread spec.1.threads k₃)
  have hboot : bootProcess k spec =
      if (k₄.procs spec.2).arrivalTime = 0 then
        (List.range' k₃.threadCount spec.1.threads.length).foldl
          (fun k t => { k with sched := schedulerAdd k.sched t })
          (k₄.setProc spec.2 fun c => pcbSetState c .ready)
      else k₄ := rfl
  rw [hboot]
  split_ifs
  · exact (h₄.trans (hset k₄ _ _)).trans (loaded_foldl hadd _ _)
  · exact h₄

/-- The kernel before the loop of `kernel_init`. -/
theorem loaded_kernelInit (k₀ : Kernel) (cfg : KernelConfig) (w : List ProcessSpec) :
    ∃ k₁ : Kernel, Loaded k₁ (kernelInit k₀ cfg w) ∧ k₁.config = cfg ∧ k₁.currentTick = 0 ∧
      k₁.pendingCount = 0 ∧ k₁.sensorBuf = bufferInit ∧ k₁.graph = deadlockInit k₀.graph :=
  ⟨_, loaded_foldl loaded_bootProcess w.zipIdx _, rfl, rfl, rfl, rfl, rfl⟩

theorem config_kernelInit (k₀ : Kernel) (cfg : KernelConfig) (w : List ProcessSpec) :
    (kernelInit k₀ cfg w).config = cfg := by
  obtain ⟨k₁, hl, hc, -⟩ := loaded_kernelInit k₀ cfg w
  rw [hl]
  exact hc

/-- What `kernel_init` has reset when it comes to its loop. -/
def clearedKernel (k₀ : Kernel) (cfg : KernelConfig) (workload : List ProcessSpec) : Kernel :=
  { k₀ with
    config := cfg
    currentTick := 0
    procs := fun i => (workload[i]?.map ProcessSpec.create).getD (k₀.procs i)
    procCount := workload.length
    sched := schedulerInit k₀.sched cfg.schedMode
    threadCount := 0
    pending := fun _ => ⟨0, 0, .none, [], 0, false⟩
    pendingCount := 0
    sensorBuf := bufferInit
    ioSeq := 0
    mem := memInit k₀.mem
    fs := fsInit
    graph := deadlockInit k₀.graph
    deadlockPhase := fun _ => 0 }

theorem kernelInit_eq (k₀ : Kernel) (cfg : KernelConfig) (workload : List ProcessSpec) :
    kernelInit k₀ cfg workload =
      workload.zipIdx.foldl bootProcess (clearedKernel k₀ cfg workload) := rfl

theorem loading_clearedKernel (k₀ : Kernel) (cfg : KernelConfig) (w : List ProcessSpec) :
    Loading w [] 0 (clearedKernel k₀ cfg w) := by
  refine ⟨rfl, rfl, fun p hp => ?_, fun p hp => ?_, fun p hp => ?_,
    fun p hp _ => ?_, ?_, rfl, fun t ht => absurd ht t.not_lt_zero,
    fun p hp _ t ht => absurd ht t.not_lt_zero⟩
  · simp [clearedKernel, hp, ProcessSpec.create, droneSetCommands, pcbCreate]
  · simp [clearedKernel, hp, ProcessSpec.create, droneSetCommands, pcbCreate]
  · simp [clearedKernel, hp, ProcessSpec.create, droneSetCommands, pcbCreate]
  · simp [clearedKernel, hp, ProcessSpec.create, droneSetCommands, pcbCreate]
  · exact Scheduler.disciplined_schedulerInit k₀.sched cfg.schedMode (Nat.zero_le _)
      (fun t ht => absurd ht t.not_lt_zero) fun t ht => absurd ht t.not_lt_zero

theorem loading_kernelInit (k₀ : Kernel) (cfg : KernelConfig) {w : List ProcessSpec}
    (hw : ValidWorkload w) : Loading w (threadIds w) w.length (kernelInit k₀ cfg w) :=
  Loading.processes hw w 0 _ rfl (loading_clearedKernel k₀ cfg w)

theorem tables_kernelInit (k₀ : Kernel) (cfg : KernelConfig) {w : List ProcessSpec}
    (hw : ValidWorkload w) : Tables (kernelInit k₀ cfg w) :=
  (loading_kernelInit k₀ cfg hw).tables hw

end FleetOS
