import FleetOS.KernelBuffer

/-!
# Wake-ups by the bounded buffer

The buffer queues the pid of the process that has to wait, and the kernel wakes the thread whose
tid is the id that left the queue. A thread that blocks on the buffer is found again if its tid
is the pid of its process (`QueuesOwnId`).

Where all threads that block on the buffer are such, the ids in the two queues and the threads
that are blocked on the buffer are the same (`BufferWaiters`), so every id that leaves a queue
wakes the thread that was queued under it (`buffer_wakes_delivered`). A call either puts one id
into a queue or takes some out, up to order (`waiters_executeBuffer_fails`,
`waiters_executeBuffer_succeeds`, `waiters_bufferWoken`).
-/

namespace FleetOS

/-- Thread `t` is blocked on the buffer. -/
structure Kernel.WaitsOnBuffer (k : Kernel) (t : ℕ) : Prop where
  lt : t < k.threadCount
  blocked : (k.tcb t).state = .blocked
  reason : (k.tcb t).waitReason = .mutexWait

/-- A thread that blocks on the buffer is queued under its own id. -/
def QueuesOwnId (m : Kernel × Phase) : Prop :=
  ∀ t, m.2 = .execute → m.1.runningThread = some t → FailsOnBuffer m.1 t →
    (m.1.tcb t).ownerPid = (m.1.tcb t).tid

/-- The ids in the queues are those of the threads that are blocked on the buffer. -/
structure BufferWaiters (k : Kernel) : Prop where
  inv : k.sensorBuf.Inv
  nodup : k.sensorBuf.waiters.Nodup
  queued : ∀ w ∈ k.sensorBuf.waiters, ∃ t, k.WaitsOnBuffer t ∧ (k.tcb t).ownerPid = w
  waiting : ∀ t, k.WaitsOnBuffer t →
    (k.tcb t).ownerPid ∈ k.sensorBuf.waiters ∧ (k.tcb t).ownerPid = (k.tcb t).tid

/-! ## What a call does to the queues -/

section Queues

variable {k : Kernel} {t : ℕ}

theorem waiters_executeBuffer_fails (h : k.sensorBuf.Inv) (hf : FailsOnBuffer k t)
    (hw : (k.tcb t).ownerPid ∉ k.sensorBuf.waiters)
    (hl : k.sensorBuf.waiters.length < maxThreads) :
    (executeBuffer k t).waiters.Perm ((k.tcb t).ownerPid :: k.sensorBuf.waiters) ∧
      executeWakes k t = [] := by
  rw [BoundedBuffer.waiters, List.mem_append, not_or] at hw
  rw [BoundedBuffer.waiters, List.length_append] at hl
  unfold executeBuffer executeWakes
  rcases hf with ⟨hc, hfull⟩ | ⟨hc, hempty⟩ <;> simp only [hc]
  · rw [bufferProduce_full h hfull]
    refine ⟨?_, rfl⟩
    simp only [BoundedBuffer.waiters, condWait_waitQueue mutexInit hw.1 (by omega)]
    rw [List.append_assoc]
    exact List.perm_middle
  · rw [bufferConsume_empty h hempty]
    refine ⟨?_, rfl⟩
    simp only [BoundedBuffer.waiters, condWait_waitQueue mutexInit hw.2 (by omega)]
    rw [← List.append_assoc]
    exact List.perm_append_comm

/-- A signal takes the first id, if there is one. -/
theorem addWake_headD {q : List ℤ} (h : ∀ w ∈ q, 0 ≤ w) :
    addWake [] (q.headD (-1)) ++ q.tail = q := by
  cases q with
  | nil => rfl
  | cons w q =>
    have hw := h w List.mem_cons_self
    simp [addWake, hw, maxWakePids]

theorem waiters_executeBuffer_succeeds (h : k.sensorBuf.Inv)
    (hnn : ∀ w ∈ k.sensorBuf.waiters, 0 ≤ w) (hf : ¬FailsOnBuffer k t) :
    (executeWakes k t ++ (executeBuffer k t).waiters).Perm k.sensorBuf.waiters := by
  unfold executeBuffer executeWakes
  rw [FailsOnBuffer, not_or, not_and, not_and, not_le] at hf
  cases hc : threadCurrentCommand (k.tcb t) with
  | produceData =>
    simp only [bufferProduce_room h (hf.1 hc), BoundedBuffer.waiters]
    have hhead := addWake_headD (q := k.sensorBuf.notEmpty.waitQueue)
      fun w hw => hnn w (List.mem_append_right _ hw)
    conv_rhs => rw [← hhead]
    rw [← List.append_assoc, ← List.append_assoc]
    exact List.perm_append_comm.append_right _
  | consumeData =>
    simp only [bufferConsume_items h (hf.2 hc), BoundedBuffer.waiters]
    rw [← List.append_assoc, addWake_headD fun w hw => hnn w (List.mem_append_left _ hw)]
  | _ => exact List.Perm.refl _

theorem waiters_bufferWoken {b : BoundedBuffer} (h : b.Inv) (hl : b.waiters.length ≤ maxProcs) :
    (bufferWakes b ++ (bufferWoken b).waiters).Perm b.waiters := by
  rw [BoundedBuffer.waiters, List.length_append] at hl
  have hempty : (condBroadcast b.notEmpty maxProcs).2 = b.notEmpty.waitQueue :=
    List.take_of_length_le (by simp only [Int.toNat_natCast]; omega)
  have hfull : (condBroadcast b.notFull maxProcs).2 = b.notFull.waitQueue :=
    List.take_of_length_le (by simp only [Int.toNat_natCast]; omega)
  unfold bufferWakes bufferWoken BoundedBuffer.waiters
  rw [hempty, hfull, waitQueue_mutex h]
  simp only [List.length_nil, lt_irrefl, and_false, if_false, List.append_nil]
  split_ifs <;> simp [List.perm_append_comm]

end Queues

/-! ## The threads that wait -/

namespace BufferWaiters

variable {k : Kernel} {t u : ℕ}

/-- Every id is that of one thread. -/
theorem unique (h : BufferWaiters k) (ht : Tables k) (hw : k.WaitsOnBuffer t)
    (hu : u < k.threadCount) (he : (k.tcb u).tid = (k.tcb t).ownerPid) : u = t :=
  ht.tids u hu t hw.lt (he.trans (h.waiting t hw).2)

/-- The thread that is found for an id in a queue waits under it. -/
theorem found (h : BufferWaiters k) (ht : Tables k) {w : ℤ} (hw : w ∈ k.sensorBuf.waiters) :
    ∃ t, findThread k w = some t ∧ k.WaitsOnBuffer t ∧ (k.tcb t).ownerPid = w := by
  obtain ⟨t, hwait, rfl⟩ := h.queued w hw
  refine ⟨t, ?_, hwait, rfl⟩
  rw [(h.waiting t hwait).2]
  exact ht.findThread_tid hwait.lt

theorem waiter_range (h : BufferWaiters k) (ht : Tables k) {w : ℤ}
    (hw : w ∈ k.sensorBuf.waiters) : validPid w := by
  obtain ⟨t, hwait, rfl⟩ := h.queued w hw
  exact ht.owner_valid hwait.lt

theorem length_le (h : BufferWaiters k) (ht : Tables k) :
    k.sensorBuf.waiters.length ≤ maxProcs := by
  have hsub : k.sensorBuf.waiters ⊆ pidIndices :=
    fun w hw => mem_pidIndices.mpr (h.waiter_range ht hw)
  have hle := (List.subperm_of_subset h.nodup hsub).length_le
  rwa [pidIndices, List.length_map, List.length_range] at hle

end BufferWaiters

section Step

variable {m : Kernel × Phase} {t : ℕ}

/-- A command on the buffer blocks its thread exactly if it fails. -/
theorem executeCommand_buffer {k : Kernel} (h : Tables k) (hi : k.sensorBuf.Inv)
    (hrun : k.runningThread = some t)
    (hc : (threadCurrentCommand (k.tcb t)).blockReason = .mutexWait) :
    FailsOnBuffer k t ∧ Blocked k (executeCommand k t) t .mutexWait ∨
      ¬FailsOnBuffer k t ∧ ((executeCommand k t).tcb t).state = .running := by
  have hexec : ∀ {k₁ : Kernel} (ids : List ℤ), k₁.sched = k.sched →
      k₁.threadCount = k.threadCount →
        Continued k (wakeThreads (k₁.setTcb t threadExecute) ids) t ids :=
    fun ids hs hn => continued_wakeThreads h hrun (ident_threadExecute _) (state_threadExecute _)
      (mlfqLevel_threadExecute _) hs hn ids
  unfold FailsOnBuffer
  cases hcmd : threadCurrentCommand (k.tcb t) with
  | produceData =>
    have hx : executeCommand k t = executeProduce k t := by rw [executeCommand, hcmd]
    rw [hx]
    unfold executeProduce
    dsimp only
    split_ifs with hret
    · refine Or.inl ⟨Or.inl ⟨rfl, ?_⟩, blocked_blockThread_of_sched h hrun (by rfl) _⟩
      by_contra hroom
      rw [bufferProduce_room hi (not_le.mp hroom)] at hret
      exact lt_irrefl 0 hret
    · refine Or.inr ⟨?_, (hexec _ (by rfl) (by rfl)).running⟩
      rintro (⟨-, hfull⟩ | ⟨he, -⟩)
      · rw [bufferProduce_full hi hfull] at hret
        simp at hret
      · cases he
  | consumeData =>
    have hx : executeCommand k t = executeConsume k t := by rw [executeCommand, hcmd]
    rw [hx]
    unfold executeConsume
    dsimp only
    split_ifs with hret
    · refine Or.inl ⟨Or.inr ⟨rfl, ?_⟩, blocked_blockThread_of_sched h hrun (by rfl) _⟩
      by_contra hne
      rw [bufferConsume_items hi hne] at hret
      exact lt_irrefl 0 hret
    · refine Or.inr ⟨?_, (hexec _ (by rfl) (by rfl)).running⟩
      rintro (⟨he, -⟩ | ⟨-, hempty⟩)
      · cases he
      · rw [bufferConsume_empty hi hempty] at hret
        simp at hret
  | _ =>
    rw [hcmd] at hc
    cases hc

/-- A waiter stays as it is unless a taken id resolves to it or its process ends. -/
theorem waiter_kept (h : MachineTables m) (hw : m.1.WaitsOnBuffer t)
    (hn : t ∉ resolvedBy m.1 (takenIds m))
    (he : ∀ p, endingAt m = some p → (m.1.tcb t).ownerPid ≠ (m.1.procs p).pid) :
    (machineStep m).1.tcb t = m.1.tcb t := by
  have hreason := hw.reason
  rcases blocked_machineStep h hw.blocked with hs | ⟨hwoken, -⟩ | ⟨p, hp, ho⟩
  · exact hs
  · cases hwoken with
    | taken ht => exact absurd ht hn
    | due reason hp i hi ha =>
      have hr := ha.reason
      rcases hp with ⟨-, rfl⟩ | ⟨-, rfl⟩ <;> rw [hreason] at hr <;> cases hr
    | served hf hb hr =>
      rw [hreason] at hr
      cases hr
  · exact absurd ho (he p hp)

/-- A thread that waits afterwards waited before, or its command has just failed. -/
theorem waiter_before (h : MachineTables m) (hi : m.1.sensorBuf.Inv)
    (hw : (machineStep m).1.WaitsOnBuffer t) :
    ((machineStep m).1.tcb t = m.1.tcb t ∧ m.1.WaitsOnBuffer t) ∨
      (m.2 = .execute ∧ m.1.runningThread = some t ∧ FailsOnBuffer m.1 t) := by
  have hlt : t < m.1.threadCount := (tableStep h).threadCount ▸ hw.lt
  rcases blocked_before h hw.blocked with hs | ⟨hrun, hf⟩
  · exact Or.inl ⟨hs, hlt, hs ▸ hw.blocked, hs ▸ hw.reason⟩
  · right
    rw [hw.reason] at hf
    obtain ⟨k, ph⟩ := m
    cases ph with
    | execute =>
      refine ⟨rfl, hrun, ?_⟩
      rcases executeCommand_buffer h.tables hi hrun hf.2.symm with ⟨hfail, -⟩ | ⟨-, hrunning⟩
      · exact hfail
      · have hb := hw.blocked
        have hx : (machineStep (k, .execute)).1 = executeCommand k t := by
          have hrun : k.runningThread = some t := hrun
          simp only [machineStep, hrun]
        rw [hx, hrunning] at hb
        cases hb
    | pageFault => cases hf
    | _ => exact hf.elim

/-- Where no command fails on the buffer, the ids that leave the queues are taken. -/
theorem waiters_taken (h : MachineTables m) (hb : BufferWaiters m.1) (he : endingAt m = none)
    (hf : ∀ t, m.2 = .execute → m.1.runningThread = some t → ¬FailsOnBuffer m.1 t) :
    (takenIds m ++ (machineStep m).1.sensorBuf.waiters).Perm m.1.sensorBuf.waiters := by
  rw [sensorBuf_machineStep h, he]
  dsimp only
  obtain ⟨k, ph⟩ := m
  cases ph with
  | execute =>
    cases hrun : k.runningThread with
    | none => simp [takenIds, bufferAt, hrun]
    | some r =>
      simp only [takenIds, bufferAt, hrun, Option.map_some, Option.getD_some]
      exact waiters_executeBuffer_succeeds hb.inv
        (fun w hw => (hb.waiter_range h.tables hw).1) (hf r rfl hrun)
  | wakeWaiters => exact waiters_bufferWoken hb.inv (hb.length_le h.tables)
  | _ => exact List.Perm.refl _

/-- Where a command fails on the buffer, its process is not in the queues yet. -/
theorem not_waiting_of_fails (h : MachineTables m) (hb : BufferWaiters m.1) (hq : QueuesOwnId m)
    (hp : m.2 = .execute) (hrun : m.1.runningThread = some t) (hf : FailsOnBuffer m.1 t) :
    (m.1.tcb t).ownerPid ∉ m.1.sensorBuf.waiters := by
  intro hw
  obtain ⟨u, hu, ho⟩ := hb.queued _ hw
  have hself := hq t hp hrun hf
  have htu := hb.unique h.tables hu (h.tables.running_lt hrun) (hself.symm.trans ho.symm)
  have hblocked := hu.blocked
  rw [← htu, (runningThread_some hrun).2] at hblocked
  cases hblocked

/-- A process that ends leaves the queues, and its threads do not wait. -/
theorem BufferWaiters.ended (h : MachineTables m) (hb : BufferWaiters m.1) {p : ℕ}
    (he : endingAt m = some p) : BufferWaiters (machineStep m).1 := by
  obtain ⟨-, hc, hdone⟩ := cleanedUp_machineStep h he
  have hnil := not_mem_resolvedBy (k := m.1) (takenIds_eq_nil_of_endingAt he)
  have hbuf : (machineStep m).1.sensorBuf = bufferRemovePid m.1.sensorBuf (m.1.procs p).pid :=
    hc.sensorBuf.trans (releaseMutex_eq (removePid_inv hb.inv _).1 _)
  have hmem : ∀ w, w ∈ (machineStep m).1.sensorBuf.waiters ↔
      w ∈ m.1.sensorBuf.waiters ∧ w ≠ (m.1.procs p).pid ∧ 0 ≤ w := by
    intro w
    rw [hbuf, waiters_bufferRemovePid, List.mem_filter, decide_eq_true_eq]
  refine ⟨bufferInv_machineStep h hb.inv, ?_, fun w hw => ?_, fun t ht => ?_⟩
  · rw [hbuf, waiters_bufferRemovePid]
    exact hb.nodup.filter _
  · obtain ⟨hw, hne, -⟩ := (hmem w).mp hw
    obtain ⟨t, ht, rfl⟩ := hb.queued w hw
    have hsame := waiter_kept h ht (hnil t) fun q hq ho =>
      hne (Option.some.inj (hq.symm.trans he) ▸ ho)
    exact ⟨t, ⟨hc.threadCount.symm ▸ ht.lt, hsame.symm ▸ ht.blocked, hsame.symm ▸ ht.reason⟩,
      by rw [hsame]⟩
  · rcases waiter_before h hb.inv ht with ⟨hsame, hw⟩ | ⟨hp, -, -⟩
    · obtain ⟨hin, hself⟩ := hb.waiting t hw
      rw [hsame]
      refine ⟨(hmem _).mpr ⟨hin, fun ho => ?_, (hb.waiter_range h.tables hin).1⟩, hself⟩
      have hd := hdone t ⟨hw.lt, ho⟩
      rw [ht.blocked] at hd
      cases hd
    · obtain ⟨k, ph⟩ := m
      cases hp
      cases he

/-- A thread whose command fails on the buffer waits under its own id. -/
theorem BufferWaiters.blocks (h : MachineTables m) (hb : BufferWaiters m.1) (hq : QueuesOwnId m)
    (hp : m.2 = .execute) (hrun : m.1.runningThread = some t) (hf : FailsOnBuffer m.1 t) :
    BufferWaiters (machineStep m).1 := by
  have hnot := not_waiting_of_fails h hb hq hp hrun hf
  have hself := hq t hp hrun hf
  have hinv := bufferInv_machineStep h hb.inv
  have hs := tableStep h
  have hsb := sensorBuf_machineStep h
  obtain ⟨k, ph⟩ := m
  obtain rfl : ph = .execute := hp
  have hrun : k.runningThread = some t := hrun
  have hlen : k.sensorBuf.waiters.length < maxThreads :=
    (hb.length_le h.tables).trans_lt (by decide)
  obtain ⟨hperm, hwakes⟩ := waiters_executeBuffer_fails hb.inv hf hnot hlen
  have hbuf : (machineStep (k, .execute)).1.sensorBuf = executeBuffer k t := by
    rw [hsb]
    simp only [endingAt, bufferAt, hrun, Option.map_some, Option.getD_some]
  have hnil : ∀ u, u ∉ resolvedBy k (takenIds (k, .execute)) := by
    refine not_mem_resolvedBy ?_
    simp only [takenIds, hrun, Option.map_some, Option.getD_some, hwakes]
  have hx : (machineStep (k, .execute)).1 = executeCommand k t := by
    simp only [machineStep, hrun]
  have hblocked : Blocked k (machineStep (k, .execute)).1 t .mutexWait := by
    have hc : (threadCurrentCommand (k.tcb t)).blockReason = .mutexWait := by
      rcases hf with ⟨hc, -⟩ | ⟨hc, -⟩ <;> rw [hc] <;> rfl
    rw [hx]
    rcases executeCommand_buffer h.tables hb.inv hrun hc with ⟨-, hbl⟩ | ⟨hnf, -⟩
    · exact hbl
    · exact absurd hf hnf
  have howner : ((machineStep (k, .execute)).1.tcb t).ownerPid = (k.tcb t).ownerPid :=
    hblocked.frame.ownerPid t
  have htid : ((machineStep (k, .execute)).1.tcb t).tid = (k.tcb t).tid := hblocked.frame.tid t
  refine ⟨hinv, ?_, fun w hw => ?_, fun u hu => ?_⟩ <;> rw [hbuf] at *
  · exact hperm.nodup_iff.mpr (List.nodup_cons.mpr ⟨hnot, hb.nodup⟩)
  · rcases List.mem_cons.mp (hperm.mem_iff.mp hw) with rfl | hw
    · exact ⟨t, ⟨hs.threadCount ▸ h.tables.running_lt hrun, hblocked.blocked, hblocked.waitReason⟩,
        howner⟩
    · obtain ⟨u, hu, rfl⟩ := hb.queued w hw
      have hsame := waiter_kept h hu (hnil u) fun q hq => by cases hq
      exact ⟨u, ⟨hs.threadCount ▸ hu.lt, hsame.symm ▸ hu.blocked, hsame.symm ▸ hu.reason⟩,
        by rw [hsame]⟩
  · rcases waiter_before h hb.inv hu with ⟨hsame, hw⟩ | ⟨-, hrun', -⟩
    · obtain ⟨hin, hown⟩ := hb.waiting u hw
      rw [hsame]
      exact ⟨hperm.mem_iff.mpr (List.mem_cons_of_mem _ hin), hown⟩
    · obtain rfl : t = u := Option.some.inj (hrun.symm.trans hrun')
      rw [howner, htid]
      exact ⟨hperm.mem_iff.mpr List.mem_cons_self, hself⟩

/-- The ids that are taken leave the queues, and the threads they resolve to are woken. -/
theorem BufferWaiters.wakes (h : MachineTables m) (hb : BufferWaiters m.1) (he : endingAt m = none)
    (hf : ∀ t, m.2 = .execute → m.1.runningThread = some t → ¬FailsOnBuffer m.1 t) :
    BufferWaiters (machineStep m).1 := by
  have hperm := waiters_taken h hb he hf
  have hs := tableStep h
  have hnodup := hperm.nodup_iff.mpr hb.nodup
  refine ⟨bufferInv_machineStep h hb.inv, hnodup.of_append_right, fun w hw => ?_, fun t ht => ?_⟩
  · obtain ⟨t, ht, rfl⟩ := hb.queued w (hperm.mem_iff.mp (List.mem_append_right _ hw))
    have hnot : t ∉ resolvedBy m.1 (takenIds m) := by
      rintro ⟨⟨id, hid, hfind⟩, -⟩
      have hid' : (m.1.tcb t).ownerPid = id :=
        (hb.waiting t ht).2.trans (findThread_eq_some hfind).2
      exact List.disjoint_of_nodup_append hnodup (hid' ▸ hid) hw
    have hsame := waiter_kept h ht hnot fun q hq => by
      rw [he] at hq
      cases hq
    exact ⟨t, ⟨hs.threadCount ▸ ht.lt, hsame.symm ▸ ht.blocked, hsame.symm ▸ ht.reason⟩,
      by rw [hsame]⟩
  · rcases waiter_before h hb.inv ht with ⟨hsame, hw⟩ | ⟨hp, hrun, hfail⟩
    · obtain ⟨hin, hown⟩ := hb.waiting t hw
      rw [hsame]
      refine ⟨?_, hown⟩
      rcases List.mem_append.mp (hperm.mem_iff.mpr hin) with htaken | hin
      · have hready := ready_of_taken h (t := t)
          ⟨⟨_, htaken, hown ▸ h.tables.findThread_tid hw.lt⟩, hw.blocked⟩
        rw [ht.blocked] at hready
        cases hready
      · exact hin
    · exact absurd hfail (hf t hp hrun)

theorem bufferWaiters_machineStep (h : MachineTables m) (hb : BufferWaiters m.1)
    (hq : QueuesOwnId m) : BufferWaiters (machineStep m).1 := by
  cases he : endingAt m with
  | some p => exact hb.ended h he
  | none =>
    by_cases hf : ∀ t, m.2 = .execute → m.1.runningThread = some t → ¬FailsOnBuffer m.1 t
    · exact hb.wakes h he hf
    · push Not at hf
      obtain ⟨t, hp, hrun, hfail⟩ := hf
      exact hb.blocks h hq hp hrun hfail

end Step

/-! ## Runs -/

theorem bufferWaiters_kernelInit (k₀ : Kernel) (cfg : KernelConfig) {w : List ProcessSpec}
    (hw : ValidWorkload w) : BufferWaiters (kernelInit k₀ cfg w) := by
  have hbuf := sensorBuf_kernelInit k₀ cfg w
  refine ⟨hbuf ▸ inv_bufferInit, ?_, fun w hw => ?_, fun t ht => ?_⟩
  · rw [hbuf]
    exact List.nodup_nil
  · rw [hbuf] at hw
    exact absurd hw List.not_mem_nil
  · have hr := (loading_kernelInit k₀ cfg hw).ready t ht.lt
    rw [ht.blocked] at hr
    cases hr

/-- A thread that a taken id resolves to was queued under it. -/
theorem resolvedBy_takenIds {m : Kernel × Phase} {t : ℕ} (h : MachineTables m)
    (hb : BufferWaiters m.1) (hsub : ∀ w ∈ takenIds m, w ∈ m.1.sensorBuf.waiters)
    (ht : t ∈ resolvedBy m.1 (takenIds m)) :
    m.1.WaitsOnBuffer t ∧ (m.1.tcb t).tid ∈ takenIds m := by
  obtain ⟨⟨id, hid, hfind⟩, -⟩ := ht
  obtain ⟨u, hfind', hwait, -⟩ := hb.found h.tables (hsub id hid)
  obtain rfl : u = t := Option.some.inj (hfind'.symm.trans hfind)
  exact ⟨hwait, (findThread_eq_some hfind).2.symm ▸ hid⟩

/-- Where ids are taken, only threads that they resolve to change, but for the one that
executes. -/
theorem changed_takenIds {m : Kernel × Phase} {t : ℕ} (h : MachineTables m)
    (hne : takenIds m ≠ []) (hr : m.2 = .execute → m.1.runningThread ≠ some t)
    (hc : (machineStep m).1.tcb t ≠ m.1.tcb t) : t ∈ resolvedBy m.1 (takenIds m) := by
  by_contra hnot
  refine hc ?_
  obtain ⟨k, ph⟩ := m
  cases ph with
  | execute =>
    cases hrun : k.runningThread with
    | none => simp [takenIds, hrun] at hne
    | some r =>
      simp only [takenIds, hrun, Option.map_some, Option.getD_some] at hne hnot
      simp only [machineStep, hrun]
      rcases executeCommand_cases h.tables hrun with hx | ⟨hnil, -, -⟩
      · refine hx.same t ?_
        rw [Set.mem_union, not_or]
        exact ⟨fun htr => hr rfl (Set.mem_singleton_iff.mp htr ▸ hrun), hnot⟩
      · exact absurd hnil hne
  | wakeWaiters =>
    exact ((drained_wakeBufferWaiters k).threads h.tables.disciplined rfl).same t hnot
  | _ => exact absurd rfl hne

/-- Ids that are taken were in the queues. -/
theorem takenIds_sub {m : Kernel × Phase} (h : MachineTables m) (hb : BufferWaiters m.1)
    {w : ℤ} (hw : w ∈ takenIds m) : w ∈ m.1.sensorBuf.waiters := by
  cases he : endingAt m with
  | some p =>
    rw [takenIds_eq_nil_of_endingAt he] at hw
    exact absurd hw List.not_mem_nil
  | none =>
    refine (waiters_taken h hb he fun t hp hrun hf => ?_).mem_iff.mp (List.mem_append_left _ hw)
    obtain ⟨k, ph⟩ := m
    obtain rfl : ph = .execute := hp
    have hrun : k.runningThread = some t := hrun
    simp only [takenIds, hrun, Option.map_some, Option.getD_some] at hw
    have hnil : executeWakes k t = [] := by
      unfold executeWakes
      rcases hf with ⟨hc, hfull⟩ | ⟨hc, hempty⟩ <;> simp only [hc]
      · rw [bufferProduce_full hb.inv hfull]
      · rw [bufferConsume_empty hb.inv hempty]
    rw [hnil] at hw
    exact absurd hw List.not_mem_nil

/-- Every id that leaves a queue of the buffer wakes the thread that was queued under it and no
other, and a thread that waits on the buffer stays in a queue, in every state of a run in which
threads are queued under their own ids. -/
theorem buffer_wakes_delivered (k₀ : Kernel) (cfg : KernelConfig) {w : List ProcessSpec}
    (hw : ValidWorkload w) {run : ℕ → Kernel × Phase} (hrun : run = machineRun (kernelInit k₀ cfg w))
    {n : ℕ} (hq : ∀ m < n, QueuesOwnId (run m)) :
    (∀ id ∈ takenIds (run n), ∃ t, findThread (run n).1 id = some t ∧ (run n).1.WaitsOnBuffer t ∧
      ((run n).1.tcb t).ownerPid = id ∧
      (∀ u, (run n).1.WaitsOnBuffer u → ((run n).1.tcb u).ownerPid = id → u = t) ∧
      ((run (n + 1)).1.tcb t).state = .ready) ∧
    (∀ t, takenIds (run n) ≠ [] → ((run n).2 = .execute → (run n).1.runningThread ≠ some t) →
      (run (n + 1)).1.tcb t ≠ (run n).1.tcb t →
        (run n).1.WaitsOnBuffer t ∧ ((run n).1.tcb t).tid ∈ takenIds (run n)) ∧
    ∀ t, (run n).1.WaitsOnBuffer t → ((run n).1.tcb t).ownerPid ∈ (run n).1.sensorBuf.waiters := by
  subst hrun
  have hstep : ∀ m, MachineTables m ∧ BufferWaiters m.1 → QueuesOwnId m →
      MachineTables (machineStep m) ∧ BufferWaiters (machineStep m).1 :=
    fun m h hq => ⟨tables_machineStep h.1, bufferWaiters_machineStep h.1 h.2 hq⟩
  obtain ⟨h, hb⟩ : MachineTables (machineRun (kernelInit k₀ cfg w) n) ∧
      BufferWaiters (machineRun (kernelInit k₀ cfg w) n).1 :=
    Machine.invariant hstep hq
      ⟨⟨tables_kernelInit k₀ cfg hw, fun t ht => by cases ht⟩, bufferWaiters_kernelInit k₀ cfg hw⟩
  rw [machineRun_succ]
  refine ⟨fun id hid => ?_, fun t hne hr hc => ?_, fun t ht => (hb.waiting t ht).1⟩
  · obtain ⟨t, hfind, hwait, rfl⟩ := hb.found h.tables (takenIds_sub h hb hid)
    refine ⟨t, hfind, hwait, rfl, fun u hu ho => ?_, ready_of_taken h ⟨⟨_, hid, hfind⟩, hwait.blocked⟩⟩
    exact hb.unique h.tables hwait hu.lt ((hb.waiting u hu).2.symm.trans ho)
  · exact resolvedBy_takenIds h hb (fun w hw => takenIds_sub h hb hw) (changed_takenIds h hne hr hc)

/-- A consumer and a producer, each with a thread of its own id. -/
def pairedWorkload : List ProcessSpec :=
  [⟨0, [], .normal, [], 0, 0, [⟨0, [.consumeData], 3⟩]⟩,
    ⟨1, [], .normal, [], 0, 0, [⟨1, [.produceData], 3⟩]⟩]

/-- The consumer waits for the first item. -/
theorem buffer_wakes_delivered_paired :
    let run := machineRun (kernelInit .zero ⟨.rr, 0, false, false⟩ pairedWorkload)
    takenIds (run 22) = [0] ∧ ∃ t, findThread (run 22).1 0 = some t ∧
      (run 22).1.WaitsOnBuffer t ∧ ((run 23).1.tcb t).state = .ready := by
  intro run
  have hw : ValidWorkload pairedWorkload := by decide
  have hown : ∀ m < 22, (run m).1.runningThread.all fun t =>
      ((run m).1.tcb t).ownerPid = ((run m).1.tcb t).tid := by decide +kernel
  have hq : ∀ m < 22, QueuesOwnId (run m) := fun m hm t _ hrun _ => by
    have ho := hown m hm
    rw [hrun] at ho
    simpa using ho
  have htaken : takenIds (run 22) = [0] := by decide +kernel
  have hrun : run = machineRun (kernelInit .zero ⟨.rr, 0, false, false⟩ pairedWorkload) := rfl
  clear_value run
  obtain ⟨t, hfind, hwait, -, -, hready⟩ :=
    (buffer_wakes_delivered .zero ⟨.rr, 0, false, false⟩ hw hrun hq).1 0 (by simp [htaken])
  exact ⟨htaken, t, hfind, hwait, hready⟩

/-- The mapping drone waits for an item with thread `4`. The id `2` that leaves its queue at tick
`38` is that of a thread of the battery drone, which is ready, and thread `4` stays blocked. -/
theorem buffer_wake_lost :
    let run := machineRun (kernelInit .zero ⟨.rr, 100, false, false⟩ droneWorkload)
    ValidWorkload droneWorkload ∧ (run 614).1.currentTick = 38 ∧ takenIds (run 614) = [2] ∧
      findThread (run 614).1 2 = some 2 ∧ ((run 614).1.tcb 2).ownerPid = 1 ∧
      ((run 614).1.tcb 2).state = .ready ∧ ((run 614).1.tcb 4).ownerPid = 2 ∧
      (run 615).1.WaitsOnBuffer 4 ∧ ((run 615).1.tcb 4).ownerPid ∉ (run 615).1.sensorBuf.waiters := by
  refine ⟨by decide, ?_⟩
  refine ⟨by decide +kernel, by decide +kernel, by decide +kernel, by decide +kernel,
    by decide +kernel, by decide +kernel, ⟨by decide +kernel, by decide +kernel, by decide +kernel⟩,
    by decide +kernel⟩

end FleetOS
