import FleetOS.Phases

/-!
# Relations kept by waking and ending

Most parts of a tick wake threads or end a process, and each of them is a loop over one step for
a thread. A relation between the kernels before and after that is transitive (`ThreadRelation`)
and holds of waking one thread (`WakeRelation`) holds of every part that only wakes threads; if it
holds of serving one waiter (`CallbackRelation`), of ending one thread and of ending a process
(`ServeRelation`), it holds of every part that a process ends in.
-/

namespace FleetOS

/-- The threads and the deadlock phases stay as they are, and of the processes whatever is read
off from the threads. -/
structure SameThreads (k k' : Kernel) : Prop where
  sched : k'.sched = k.sched
  threadCount : k'.threadCount = k.threadCount
  procCount : k'.procCount = k.procCount
  pid : ∀ p, (k'.procs p).pid = (k.procs p).pid
  state : ∀ p, (k'.procs p).state = (k.procs p).state
  reason : ∀ p, (k'.procs p).blockedReason = (k.procs p).blockedReason
  phase : k'.deadlockPhase = k.deadlockPhase

theorem SameThreads.of_procs {k k' : Kernel} (hs : k'.sched = k.sched)
    (hn : k'.threadCount = k.threadCount) (hc : k'.procCount = k.procCount)
    (hp : k'.procs = k.procs) (hd : k'.deadlockPhase = k.deadlockPhase) : SameThreads k k' :=
  ⟨hs, hn, hc, fun p => by rw [hp], fun p => by rw [hp], fun p => by rw [hp], hd⟩

theorem SameThreads.refl (k : Kernel) : SameThreads k k := .of_procs rfl rfl rfl rfl rfl

theorem Prepared.sameThreads {k k₁ : Kernel} (h : Prepared k k₁)
    (hp : k₁.deadlockPhase = k.deadlockPhase) : SameThreads k k₁ :=
  .of_procs h.sched h.threadCount (by rw [h.rest]) (by rw [h.rest]) hp

/-- The body of the loop of `deadlock_wake_callback`. -/
def serveThread (k : Kernel) (pid : ℤ) (t : ℕ) : Kernel :=
  let k := unblockThread k t
  { k with deadlockPhase := Function.update k.deadlockPhase pid (k.deadlockPhase pid + 1) }.setTcb t
    TCB.advance

/-! ## The thread that is woken -/

/-- Queueing a thread writes at most its state and its level. -/
theorem tcb_schedulerAdd (s : Scheduler) (t : ℕ) :
    (∀ u, u ≠ t → (schedulerAdd s t).tcb u = s.tcb u) ∧
      ((schedulerAdd s t).tcb t = s.tcb t ∨
        ∃ l, (schedulerAdd s t).tcb t = { s.tcb t with mlfqLevel := l, state := .ready }) := by
  have hregister : ∀ s : Scheduler, (s.register t).tcb = s.tcb := by
    intro s
    unfold Scheduler.register
    split_ifs <;> rfl
  unfold schedulerAdd
  split
  · split_ifs
    · exact ⟨fun _ _ => rfl, Or.inl rfl⟩
    · exact ⟨fun _ _ => rfl, Or.inl rfl⟩
    · rw [hregister]
      exact ⟨fun u hu => Scheduler.setTcb_of_ne _ hu _,
        Or.inr ⟨(s.tcb t).mlfqLevel, Scheduler.setTcb_self _ _ _⟩⟩
  · dsimp only
    split_ifs
    · exact ⟨fun _ _ => rfl, Or.inl rfl⟩
    · rw [hregister]
      exact ⟨fun u hu => Scheduler.setTcb_of_ne _ hu _,
        Or.inr ⟨(s.tcb t).queueLevel, Scheduler.setTcb_self _ _ _⟩⟩

theorem tcb_unblockThread {k : Kernel} {t : ℕ} (hb : (k.tcb t).state = .blocked) :
    (∀ u, u ≠ t → (unblockThread k t).tcb u = k.tcb u) ∧
      ∃ l, (unblockThread k t).tcb t =
        { k.tcb t with state := .ready, waitReason := .none, mlfqLevel := l } := by
  obtain ⟨hother, hself⟩ := tcb_schedulerAdd (k.sched.setTcb t threadUnblock) t
  have hready : (k.sched.setTcb t threadUnblock).tcb t =
      { k.tcb t with state := .ready, waitReason := .none } := by
    rw [Scheduler.setTcb_self]
    exact if_pos hb
  simp only [Kernel.tcb, sched_unblockThread, schedulerUnblock]
  refine ⟨fun u hu => (hother u hu).trans (Scheduler.setTcb_of_ne _ hu _), ?_⟩
  rcases hself with hs | ⟨l, hs⟩ <;> rw [hs, hready]
  · exact ⟨_, rfl⟩
  · exact ⟨l, rfl⟩

/-! ## Relations -/

structure ThreadRelation (R : Kernel → Kernel → Prop) : Prop where
  trans : ∀ {k k' k''}, R k k' → R k' k'' → R k k''
  same : ∀ {k k'}, SameThreads k k' → R k k'

structure WakeRelation (R : Kernel → Kernel → Prop) : Prop extends ThreadRelation R where
  unblock : ∀ {k t}, t < k.threadCount → (k.tcb t).state = .blocked → R k (unblockThread k t)

structure EndRelation (R : Kernel → Kernel → Prop) : Prop extends ThreadRelation R where
  done : ∀ k t, R k (k.setTcb t fun c => { c with state := .done })
  terminate : ∀ k p, R k (terminate k p)

structure CallbackRelation (R : Kernel → Kernel → Prop) : Prop extends ThreadRelation R where
  serve : ∀ {k : Kernel} {pid : ℤ} {t : ℕ}, t < k.threadCount → (k.tcb t).state = .blocked →
    (k.tcb t).waitReason = .resourceWait → R k (serveThread k pid t)

structure ServeRelation (R : Kernel → Kernel → Prop) : Prop extends EndRelation R where
  serve : ∀ {k : Kernel} {pid : ℤ} {t : ℕ}, t < k.threadCount → (k.tcb t).state = .blocked →
    (k.tcb t).waitReason = .resourceWait → R k (serveThread k pid t)

variable {R : Kernel → Kernel → Prop}

namespace ThreadRelation

theorem refl (h : ThreadRelation R) (k : Kernel) : R k k := h.same (.refl k)

theorem foldl (h : ThreadRelation R) {α : Type*} {f : Kernel → α → Kernel} (hf : ∀ k a, R k (f k a)) :
    ∀ (l : List α) (k : Kernel), R k (l.foldl f k)
  | [], k => h.refl k
  | a :: l, k => h.trans (hf k a) (foldl h hf l (f k a))

/-- A loop over the threads. -/
theorem foldl_threads (h : ThreadRelation R) {f : Kernel → ℕ → Kernel}
    (hn : ∀ k t, (f k t).threadCount = k.threadCount)
    (hf : ∀ k t, t < k.threadCount → R k (f k t)) (k : Kernel) : R k (k.threads.foldl f k) := by
  refine (List.foldlRecOn (motive := fun k' => R k k' ∧ k'.threadCount = k.threadCount) k.threads f
    ⟨h.refl k, rfl⟩ fun k' hk' t ht => ⟨h.trans hk'.1 (hf k' t ?_), (hn k' t).trans hk'.2⟩).1
  exact hk'.2.symm ▸ mem_threads.mp ht

/-- The arrivals, for a relation that holds of each step of the loop. -/
theorem checkArrivals (h : ThreadRelation R)
    (hready : ∀ k p, R k (k.setProc p fun c => pcbSetState c .ready))
    (hadd : ∀ (k : Kernel) t, R k { k with sched := schedulerAdd k.sched t }) (k : Kernel) :
    R k (checkArrivals k) := by
  refine h.foldl (fun k p => ?_) _ k
  unfold arrive
  split_ifs
  · refine h.trans (hready k p) (h.foldl (f := fun k t =>
      if (k.tcb t).ownerPid = (k.procs p).pid then { k with sched := schedulerAdd k.sched t }
      else k) (fun k t => ?_) _ (k.setProc p fun c => pcbSetState c .ready))
    split_ifs
    · exact hadd k t
    · exact h.refl k
  · exact h.refl k

end ThreadRelation

namespace WakeRelation

theorem unblockOwned (h : WakeRelation R) (k : Kernel) (pid : ℤ) (reason : BlockReason) :
    R k (unblockOwned k pid reason) := by
  refine h.foldl_threads (fun k t => ?_) (fun k t ht => ?_) k
  · split_ifs
    · exact (steady_unblockThread k t).threadCount
    · rfl
  · split_ifs with hc
    · exact h.unblock ht hc.2.1
    · exact h.refl k

theorem wakeThreads (h : WakeRelation R) (k : Kernel) (ids : List ℤ) : R k (wakeThreads k ids) := by
  refine h.foldl (fun k id => ?_) ids k
  split
  · exact h.refl k
  · split_ifs with hb
    · exact h.unblock (findThread_eq_some ‹_›).1 hb
    · exact h.refl k

/-- The ids come out of the buffer. -/
theorem wakeBuffer (h : WakeRelation R) (k : Kernel) (b : BoundedBuffer) (ids : List ℤ) :
    R k (FleetOS.wakeThreads { k with sensorBuf := b } ids) := by
  have hb : R k { k with sensorBuf := b } := h.same (.of_procs rfl rfl rfl rfl rfl)
  exact h.trans hb (h.wakeThreads _ ids)

theorem completeIoEvent (h : WakeRelation R) (k : Kernel) (i : ℕ) : R k (completeIoEvent k i) := by
  unfold FleetOS.completeIoEvent
  dsimp only
  split_ifs
  · exact h.refl k
  · cases k.findProc (k.pending i).pid with
    | none => exact h.same (.of_procs rfl rfl rfl rfl rfl)
    | some p =>
      set k₁ : Kernel := { k with fs := (fsWrite k.fs (k.pending i).path
        (sensorData (k.pending i).pid (k.pending i).completionTick)
        (sensorData (k.pending i).pid (k.pending i).completionTick).length).1 }
      have h₁ : R k k₁ := h.same (.of_procs rfl rfl rfl rfl rfl)
      exact h.trans (h.trans h₁ (h.unblockOwned k₁ (k.pending i).pid .ioBlock))
        (h.same (.of_procs rfl rfl rfl rfl rfl))

theorem completePageFault (h : WakeRelation R) (k : Kernel) (i : ℕ) : R k (completePageFault k i) := by
  unfold FleetOS.completePageFault
  dsimp only
  split_ifs
  · exact h.refl k
  · cases k.findProc (k.pending i).pid with
    | none => exact h.same (.of_procs rfl rfl rfl rfl rfl)
    | some p =>
      set r := resolvePageFault k.mem k.procs k.procCount p (k.pending i).page
      set k₁ : Kernel := { k with mem := r.1, procs := r.2 }
      have h₁ : R k k₁ := h.same ⟨rfl, rfl, rfl, resolvePageFault_pid _ _ _ _ _,
        resolvePageFault_state _ _ _ _ _, resolvePageFault_unpaged (fun _ _ _ => rfl) _ _ _ _ _, rfl⟩
      exact h.trans (h.trans h₁ (h.unblockOwned k₁ (k.procs p).pid .pageFault))
        (h.same (.of_procs rfl rfl rfl rfl rfl))

theorem wakeBufferWaiters (h : WakeRelation R) (k : Kernel) : R k (wakeBufferWaiters k) := by
  set k₁ := if 0 < k.sensorBuf.count then
      FleetOS.wakeThreads { k with sensorBuf := { k.sensorBuf with
        notEmpty := (condBroadcast k.sensorBuf.notEmpty maxProcs).1 } }
        (condBroadcast k.sensorBuf.notEmpty maxProcs).2
    else k with hk₁
  have h₁ : R k k₁ := by
    rw [hk₁]
    split_ifs
    · exact h.wakeBuffer k _ _
    · exact h.refl k
  set k₂ := if k₁.sensorBuf.count < ringBufferSize then
      FleetOS.wakeThreads { k₁ with sensorBuf := { k₁.sensorBuf with
        notFull := (condBroadcast k₁.sensorBuf.notFull maxProcs).1 } }
        (condBroadcast k₁.sensorBuf.notFull maxProcs).2
    else k₁ with hk₂
  have h₂ : R k₁ k₂ := by
    rw [hk₂]
    split_ifs
    · exact h.wakeBuffer k₁ _ _
    · exact h.refl k₁
  have he : FleetOS.wakeBufferWaiters k =
      if !k₂.sensorBuf.mutex.locked ∧ 0 < k₂.sensorBuf.mutex.waitQueue.length then
        FleetOS.wakeThreads { k₂ with sensorBuf := { k₂.sensorBuf with
          mutex := { k₂.sensorBuf.mutex with waitQueue := k₂.sensorBuf.mutex.waitQueue.tail } } }
          [k₂.sensorBuf.mutex.waitQueue.headD 0]
      else k₂ := rfl
  rw [he]
  split_ifs
  · exact h.trans (h.trans h₁ h₂) (h.wakeBuffer k₂ _ _)
  · exact h.trans h₁ h₂

end WakeRelation

namespace EndRelation

theorem endThreads (h : EndRelation R) (k : Kernel) (pid : ℤ) : R k (endThreads k pid) := by
  refine h.foldl (fun k t => ?_) _ k
  split_ifs
  · exact h.done k t
  · exact h.refl k

/-- A process that ends without giving back its resources. -/
theorem cleanupProcess (h : EndRelation R) (k : Kernel) (p : ℕ) : R k (cleanupProcess k p false) := by
  have hw : R k (withdraw k (k.procs p).pid) := h.same (.of_procs rfl rfl rfl rfl rfl)
  rw [cleanupProcess_eq]
  exact h.trans (h.trans hw (h.terminate _ p)) (h.endThreads _ _)

theorem retire (h : EndRelation R) {k : Kernel} {t : ℕ}
    (ht : R k { k with sched := schedulerTerminate k.sched t }) : R k (retire k t) := by
  unfold FleetOS.retire
  dsimp only
  split_ifs
  · cases endingProcess k t with
    | none => exact ht
    | some p => exact h.trans ht (h.cleanupProcess _ p)
  · exact h.refl k

end EndRelation

namespace CallbackRelation

theorem deadlockWakeCallback (h : CallbackRelation R) (k : Kernel) (pid : ℤ) :
    R k (deadlockWakeCallback k pid) := by
  refine h.foldl_threads (fun k t => ?_) (fun k t ht => ?_) k
  · split_ifs
    · exact (steady_unblockThread k t).threadCount
    · rfl
  · split_ifs with hc
    · exact h.serve ht hc.2.1 hc.2.2
    · exact h.refl k

theorem applyWoken (h : CallbackRelation R) (k : Kernel) (r : ResourceGraph × List ℤ) :
    R k (applyWoken k r) := by
  have hg : R k { k with graph := r.1 } := h.same (.of_procs rfl rfl rfl rfl rfl)
  exact h.trans hg (h.foldl h.deadlockWakeCallback r.2 _)

theorem releaseResources (h : CallbackRelation R) (k : Kernel) (pid : ℤ) :
    R k (releaseResources k pid) :=
  h.trans (h.applyWoken k _) (h.same (.of_procs rfl rfl rfl rfl rfl))

end CallbackRelation

namespace ServeRelation

theorem callback (h : ServeRelation R) : CallbackRelation R := ⟨h.toThreadRelation, h.serve⟩

theorem detectDeadlock (h : ServeRelation R) (k : Kernel) : R k (detectDeadlock k) := by
  unfold FleetOS.detectDeadlock
  cases deadlockVictim k with
  | none => exact h.refl k
  | some p => exact h.trans (h.callback.applyWoken k _) (h.cleanupProcess _ p)

theorem injectCrash (h : ServeRelation R) (k : Kernel) : R k (injectCrash k) := by
  unfold FleetOS.injectCrash
  cases crashedProcess k with
  | none => exact h.refl k
  | some p =>
    have hw : R k (withdraw k (k.procs p).pid) := h.same (.of_procs rfl rfl rfl rfl rfl)
    dsimp only
    rw [cleanupProcess_eq, if_pos rfl]
    exact h.trans (h.trans (h.trans hw (h.callback.releaseResources _ _)) (h.terminate _ p)) (h.endThreads _ _)

end ServeRelation

end FleetOS
