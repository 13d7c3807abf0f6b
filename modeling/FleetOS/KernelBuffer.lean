import FleetOS.BlockedThreads
import FleetOS.BufferQueue

/-!
# The bounded buffer in a run

The buffer changes where a thread produces or consumes, where the waiters are woken and where a
process ends, and nowhere else (`sensorBuf_machineStep`). Its mutex is free between any two
parts of a tick (`bufferInv_machineStep`), so the queue of the mutex is always empty, and a
call fails on a full or an empty buffer only.
-/

namespace FleetOS

/-- The buffer after the command of thread `t`. -/
def executeBuffer (k : Kernel) (t : ℕ) : BoundedBuffer :=
  match threadCurrentCommand (k.tcb t) with
  | .produceData => (bufferProduce k.sensorBuf (k.currentTick * 100 + (k.tcb t).ownerPid)
      (k.tcb t).ownerPid).buf
  | .consumeData => (bufferConsume k.sensorBuf (k.tcb t).ownerPid).buf
  | _ => k.sensorBuf

/-- The buffer after a part of a tick in which no process ends. -/
def bufferAt : Kernel × Phase → BoundedBuffer
  | (k, .execute) => (k.runningThread.map (executeBuffer k)).getD k.sensorBuf
  | (k, .wakeWaiters) => bufferWoken k.sensorBuf
  | (k, _) => k.sensorBuf

theorem sensorBuf_executeCommand (k : Kernel) (t : ℕ) :
    (executeCommand k t).sensorBuf = executeBuffer k t := by
  unfold executeCommand executeBuffer
  cases threadCurrentCommand (k.tcb t) with
  | compute => rfl
  | produceData => exact (steady_executeProduce k t).sensorBuf
  | consumeData => exact (steady_executeConsume k t).sensorBuf
  | acquireResource => exact (steady_executeAcquire k t).sensorBuf
  | ioWrite =>
    obtain ⟨k₁, fs, hs, he⟩ := executeIoWrite_eq k t
    have hb : (executeIoWrite k t).sensorBuf = k.sensorBuf := by
      rw [he, registerIo_rest]
      exact hs.sensorBuf
    exact hb

theorem sensorBuf_machineStep {m : Kernel × Phase} (h : MachineTables m) :
    (machineStep m).1.sensorBuf =
      match endingAt m with
      | some p => bufferReleaseMutex (bufferRemovePid m.1.sensorBuf (m.1.procs p).pid)
          (m.1.procs p).pid
      | none => bufferAt m := by
  cases he : endingAt m with
  | some p => exact (cleanedUp_machineStep h he).2.1.sensorBuf
  | none =>
  cases hb : m.2.busy with
  | false =>
    rw [(quiet_machineStep h he hb).sensorBuf]
    obtain ⟨k, ph⟩ := m
    cases ph <;> first | rfl | cases hb
  | true =>
  obtain ⟨k, ph⟩ := m
  cases ph with
  | ioEvents => exact (completed_completeIoEvents k).sensorBuf
  | pageFaults => exact (completed_completePageFaults k).sensorBuf
  | compact => rfl
  | execute =>
    cases hr : k.runningThread with
    | none => simp only [machineStep, bufferAt, hr, Option.map_none, Option.getD_none]
    | some t =>
      simp only [machineStep, bufferAt, hr, Option.map_some, Option.getD_some]
      exact sensorBuf_executeCommand k t
  | pageFault => exact (triggerPageFault_keeps k).2.1
  | wakeWaiters => exact (drained_wakeBufferWaiters k).steady.sensorBuf
  | _ => cases hb

/-! ## The invariant of the buffer -/

theorem inv_executeBuffer {k : Kernel} (h : k.sensorBuf.Inv) (t : ℕ) : (executeBuffer k t).Inv := by
  unfold executeBuffer
  split
  · by_cases hfull : ringBufferSize ≤ k.sensorBuf.count
    · exact (produce_full h hfull _ _).2.1
    · exact (produce_room h (not_le.mp hfull) _ _).2.1
  · by_cases hempty : k.sensorBuf.count = 0
    · exact (consume_empty h hempty _).2.2.1
    · obtain ⟨item, -, -, hinv, -⟩ := consume_items h hempty (k.tcb t).ownerPid
      exact hinv
  · exact h

theorem inv_bufferWoken {b : BoundedBuffer} (h : b.Inv) : (bufferWoken b).Inv := by
  have hm : b.mutex = mutexInit := h.mutexFree
  refine ⟨h.ring_wf, h.in_eq, ?_⟩
  simp [BoundedBuffer.MutexFree, bufferWoken, hm, mutexInit]

theorem inv_bufferAt {m : Kernel × Phase} (h : m.1.sensorBuf.Inv) : (bufferAt m).Inv := by
  obtain ⟨k, ph⟩ := m
  cases ph with
  | execute =>
    cases hr : k.runningThread with
    | none => simpa only [bufferAt, hr, Option.map_none, Option.getD_none] using h
    | some t =>
      simp only [bufferAt, hr, Option.map_some, Option.getD_some]
      exact inv_executeBuffer h t
  | wakeWaiters => exact inv_bufferWoken h
  | _ => exact h

theorem bufferInv_machineStep {m : Kernel × Phase} (h : MachineTables m) (hb : m.1.sensorBuf.Inv) :
    (machineStep m).1.sensorBuf.Inv := by
  rw [sensorBuf_machineStep h]
  split
  · rw [releaseMutex_eq (removePid_inv hb _).1]
    exact (removePid_inv hb _).1
  · exact inv_bufferAt hb

theorem sensorBuf_kernelInit (k₀ : Kernel) (cfg : KernelConfig) (w : List ProcessSpec) :
    (kernelInit k₀ cfg w).sensorBuf = bufferInit := by
  obtain ⟨k₁, hl, -, -, -, hb, -⟩ := loaded_kernelInit k₀ cfg w
  rw [hl]
  exact hb

/-! ## Who waits on the buffer -/

/-- The ids in the queues of the two conditions. -/
def BoundedBuffer.waiters (b : BoundedBuffer) : List ℤ :=
  b.notFull.waitQueue ++ b.notEmpty.waitQueue

/-- The next command of thread `t` fails on the buffer. -/
def FailsOnBuffer (k : Kernel) (t : ℕ) : Prop :=
  threadCurrentCommand (k.tcb t) = .produceData ∧ ringBufferSize ≤ k.sensorBuf.count ∨
    threadCurrentCommand (k.tcb t) = .consumeData ∧ k.sensorBuf.count = 0

theorem waitQueue_mutex {b : BoundedBuffer} (h : b.Inv) : b.mutex.waitQueue = [] := by
  have hm : b.mutex = mutexInit := h.mutexFree
  rw [hm]
  rfl

theorem waiters_bufferRemovePid (b : BoundedBuffer) (pid : ℤ) :
    (bufferRemovePid b pid).waiters = b.waiters.filter fun p => p ≠ pid ∧ 0 ≤ p := by
  simp only [BoundedBuffer.waiters, bufferRemovePid, removePid_eq, List.filter_append]

/-- A command adds its process to the waiters at most, and only if it fails on the buffer. -/
theorem mem_waiters_executeBuffer {k : Kernel} {t : ℕ} (h : k.sensorBuf.Inv) {w : ℤ}
    (hw : w ∈ (executeBuffer k t).waiters) :
    w ∈ k.sensorBuf.waiters ∨ w = (k.tcb t).ownerPid ∧ FailsOnBuffer k t := by
  unfold executeBuffer at hw
  cases hc : threadCurrentCommand (k.tcb t) with
  | produceData =>
    simp only [hc] at hw
    by_cases hfull : ringBufferSize ≤ k.sensorBuf.count
    · rw [bufferProduce_full h hfull] at hw
      rcases List.mem_append.mp hw with hw | hw
      · exact (mem_condWait hw).imp (fun hw => List.mem_append_left _ hw)
          fun hw => ⟨hw, Or.inl ⟨hc, hfull⟩⟩
      · exact Or.inl (List.mem_append_right _ hw)
    · rw [bufferProduce_room h (not_le.mp hfull)] at hw
      refine Or.inl (List.mem_append.mpr ((List.mem_append.mp hw).imp_right ?_))
      exact List.mem_of_mem_tail
  | consumeData =>
    simp only [hc] at hw
    by_cases hempty : k.sensorBuf.count = 0
    · rw [bufferConsume_empty h hempty] at hw
      rcases List.mem_append.mp hw with hw | hw
      · exact Or.inl (List.mem_append_left _ hw)
      · exact (mem_condWait hw).imp (fun hw => List.mem_append_right _ hw)
          fun hw => ⟨hw, Or.inr ⟨hc, hempty⟩⟩
    · rw [bufferConsume_items h hempty] at hw
      refine Or.inl (List.mem_append.mpr ((List.mem_append.mp hw).imp_left ?_))
      exact List.mem_of_mem_tail
  | _ =>
    simp only [hc] at hw
    exact Or.inl hw

theorem mem_waiters_bufferWoken {b : BoundedBuffer} {w : ℤ} (hw : w ∈ (bufferWoken b).waiters) :
    w ∈ b.waiters := by
  unfold bufferWoken BoundedBuffer.waiters at hw
  refine List.mem_append.mpr ((List.mem_append.mp hw).imp (fun hw => ?_) fun hw => ?_)
  all_goals
    dsimp only at hw
    split_ifs at hw
    · exact absurd hw List.not_mem_nil
    · exact hw

end FleetOS
