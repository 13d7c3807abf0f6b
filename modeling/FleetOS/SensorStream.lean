import FleetOS.KernelBuffer
import FleetOS.LogFiles
import FleetOS.Snapshots

/-!
# The sensor data of a run

A producing thread puts the tick and the pid of its process into the buffer as one number, and a
tick executes one command. So the numbers that a run produces ascend, none twice, and the
consumers get them in this order : at any point they have got the first of them, and the rest is
in the buffer (`samples_in_order`). The numbers of the program are 32-bit integers, and these are the same
up to `lastTick`.
-/

namespace FleetOS

/-- The last tick whose samples fit into 32 bits. -/
def lastTick : ℤ := 21474836

/-- The result of the call of the buffer in this part of a tick : to produce and to consume. The sample
is that of the program up to `lastTick`, where its `int` does not overflow. -/
def producedAt : Kernel × Phase → Option ℤ
  | (k, .execute) => k.runningThread.bind fun t =>
    let item := k.currentTick * 100 + (k.tcb t).ownerPid
    if threadCurrentCommand (k.tcb t) = .produceData ∧
        (bufferProduce k.sensorBuf item (k.tcb t).ownerPid).ret = 0 then some item
    else none
  | _ => none

def consumedAt : Kernel × Phase → Option ℤ
  | (k, .execute) => k.runningThread.bind fun t =>
    if threadCurrentCommand (k.tcb t) = .consumeData then
      (bufferConsume k.sensorBuf (k.tcb t).ownerPid).item
    else none
  | _ => none

/-- What the first `n` parts of a run yield, in order. -/
def gathered {α : Type*} (out : Kernel × Phase → Option α) (k : Kernel) (n : ℕ) : List α :=
  (List.range n).filterMap fun i => out (machineRun k i)

def produced : Kernel → ℕ → List ℤ := gathered producedAt

def consumed : Kernel → ℕ → List ℤ := gathered consumedAt

theorem gathered_succ {α : Type*} (out : Kernel × Phase → Option α) (k : Kernel) (n : ℕ) :
    gathered out k (n + 1) = gathered out k n ++ (out (machineRun k n)).toList := by
  rw [gathered, List.range_succ, List.filterMap_append, gathered]
  cases h : out (machineRun k n) <;> simp [h]

/-! ## One part of a tick -/

section steps

variable {m : Kernel × Phase} {k : Kernel} {t : ℕ}

/-- What a part of a tick does to the slots of the buffer and to the queue in them. -/
inductive SampleStep (m : Kernel × Phase) : Prop
  | kept (hp : producedAt m = none) (hc : consumedAt m = none)
      (hslots : (machineStep m).1.sensorBuf.buffer = m.1.sensorBuf.buffer)
      (hitems : (machineStep m).1.sensorBuf.items = m.1.sensorBuf.items)
  | pushed {t : ℕ} (hphase : m.2 = .execute) (hrun : m.1.runningThread = some t)
      (hp : producedAt m = some (m.1.currentTick * 100 + (m.1.tcb t).ownerPid))
      (hc : consumedAt m = none)
      (hslots : ∃ i, (machineStep m).1.sensorBuf.buffer = Function.update m.1.sensorBuf.buffer i
        (m.1.currentTick * 100 + (m.1.tcb t).ownerPid))
      (hitems : (machineStep m).1.sensorBuf.items =
        m.1.sensorBuf.items ++ [m.1.currentTick * 100 + (m.1.tcb t).ownerPid])
  | popped {item : ℤ} (hp : producedAt m = none) (hc : consumedAt m = some item)
      (hslots : (machineStep m).1.sensorBuf.buffer = m.1.sensorBuf.buffer)
      (hitems : m.1.sensorBuf.items = item :: (machineStep m).1.sensorBuf.items)

theorem sampleStep_execute (hb : k.sensorBuf.Inv) (hrun : k.runningThread = some t) :
    SampleStep (k, .execute) := by
  have hbuf : (machineStep (k, .execute)).1.sensorBuf = executeBuffer k t := by
    simp only [machineStep, hrun]
    exact sensorBuf_executeCommand k t
  set item := k.currentTick * 100 + (k.tcb t).ownerPid with hitem
  unfold executeBuffer at hbuf
  cases hcmd : threadCurrentCommand (k.tcb t) with
  | produceData =>
    simp only [hcmd] at hbuf
    have hc : consumedAt (k, .execute) = none := by
      simp [consumedAt, hrun, hcmd]
    by_cases hfull : ringBufferSize ≤ k.sensorBuf.count
    · obtain ⟨hret, -, hitems⟩ := produce_full hb hfull item (k.tcb t).ownerPid
      refine .kept ?_ hc ?_ (hbuf ▸ hitems)
      · simp [producedAt, hrun, hcmd, ← hitem, hret]
      · rw [hbuf, bufferProduce_full hb hfull]
    · obtain ⟨hret, -, hitems⟩ := produce_room hb (not_le.mp hfull) item (k.tcb t).ownerPid
      refine .pushed rfl hrun ?_ hc ⟨k.sensorBuf.inPos, ?_⟩ (hbuf ▸ hitems)
      · simp [producedAt, hrun, hcmd, ← hitem, hret]
      · rw [hbuf, bufferProduce_room hb (not_le.mp hfull)]
  | consumeData =>
    simp only [hcmd] at hbuf
    have hp : producedAt (k, .execute) = none := by
      simp [producedAt, hrun, hcmd]
    by_cases hempty : k.sensorBuf.count = 0
    · obtain ⟨-, hnone, -, hitems⟩ := consume_empty hb hempty (k.tcb t).ownerPid
      refine .kept hp ?_ ?_ (hbuf ▸ hitems)
      · simp [consumedAt, hrun, hcmd, hnone]
      · rw [hbuf, bufferConsume_empty hb hempty]
    · obtain ⟨got, -, hgot, -, hitems⟩ := consume_items hb hempty (k.tcb t).ownerPid
      have hc : consumedAt (k, .execute) = some got := by
        simp [consumedAt, hrun, hcmd, hgot]
      refine .popped hp hc ?_ (hbuf ▸ hitems)
      rw [hbuf, bufferConsume_items hb hempty]
  | _ =>
    simp only [hcmd] at hbuf
    refine .kept ?_ ?_ (by rw [hbuf]) (by rw [hbuf])
    · simp [producedAt, hrun, hcmd]
    · simp [consumedAt, hrun, hcmd]

theorem sampleStep (h : MachineTables m) (hb : m.1.sensorBuf.Inv) : SampleStep m := by
  by_cases hx : m.2 = .execute
  · obtain ⟨k, ph⟩ := m
    subst hx
    cases hrun : k.runningThread with
    | none =>
      refine .kept ?_ ?_ ?_ ?_ <;> simp [producedAt, consumedAt, machineStep, hrun]
    | some t => exact sampleStep_execute hb hrun
  · have hbuf := sensorBuf_machineStep h
    have hnone : producedAt m = none ∧ consumedAt m = none := by
      obtain ⟨k, ph⟩ := m
      cases ph <;> first | exact ⟨rfl, rfl⟩ | exact absurd rfl hx
    refine .kept hnone.1 hnone.2 ?_ ?_ <;> rw [hbuf]
    · split
      · rw [releaseMutex_eq (removePid_inv hb _).1]
        rfl
      · obtain ⟨k, ph⟩ := m
        cases ph <;> first | rfl | exact absurd rfl hx
    · split
      · rw [releaseMutex_eq (removePid_inv hb _).1]
        rfl
      · obtain ⟨k, ph⟩ := m
        cases ph <;> first | rfl | exact absurd rfl hx

end steps

/-! ## Whole runs -/

/-- A sample of one of the processes, produced in a tick before `bound`. -/
def IsSample (k : Kernel) (bound s : ℤ) : Prop :=
  ∃ tick, (0 ≤ tick ∧ tick < bound) ∧ ∃ p < k.procCount, s = tick * 100 + (k.procs p).pid

/-- What is true of the samples `ps` that were produced and `cs` that were consumed until `m`. -/
structure Stream (m : Kernel × Phase) (ps cs : List ℤ) : Prop where
  buf : m.1.sensorBuf.Inv
  order : ps = cs ++ m.1.sensorBuf.items
  ascending : ps.Pairwise (· < ·)
  sample : ∀ s ∈ ps, IsSample m.1 (m.1.currentTick + m.2.ran) s
  slots : ∀ i, m.1.sensorBuf.buffer i = 0 ∨ m.1.sensorBuf.buffer i ∈ ps

theorem IsSample.machineStep {m : Kernel × Phase} (ht : MachineTables m) {s : ℤ}
    (h : IsSample m.1 (m.1.currentTick + m.2.ran) s) :
    IsSample (machineStep m).1 ((machineStep m).1.currentTick + (machineStep m).2.ran) s := by
  obtain ⟨tick, htick, p, hp, rfl⟩ := h
  have hs := tableStep ht
  refine ⟨tick, ⟨htick.1, htick.2.trans_le (ran_machineStep ht).1⟩, p, hs.procCount.symm ▸ hp, ?_⟩
  rw [hs.pid]

/-- Samples of earlier ticks are smaller. -/
theorem IsSample.lt {k : Kernel} (ht : Tables k) {tick s : ℤ} (h : IsSample k tick s) {pid : ℤ}
    (hpid : 0 ≤ pid) : s < tick * 100 + pid := by
  obtain ⟨tick', htick, p, hp, rfl⟩ := h
  have hm : maxProcs = 16 := rfl
  have hlt := (ht.pid_range p hp).2
  omega

theorem stream_machineStep {m : Kernel × Phase} (ht : MachineTables m) (h0 : 0 ≤ m.1.currentTick)
    {ps cs : List ℤ} (h : Stream m ps cs) :
    Stream (machineStep m) (ps ++ (producedAt m).toList) (cs ++ (consumedAt m).toList) := by
  have hbuf := bufferInv_machineStep ht h.buf
  have hlt := (ran_machineStep ht).2
  have hsample : ∀ s ∈ ps,
      IsSample (machineStep m).1 ((machineStep m).1.currentTick + (machineStep m).2.ran) s :=
    fun s hs => (h.sample s hs).machineStep ht
  cases sampleStep ht h.buf with
  | kept hp hc hslots hitems =>
    rw [hp, hc, Option.toList_none, List.append_nil, List.append_nil]
    exact ⟨hbuf, by rw [hitems]; exact h.order, h.ascending, hsample, hslots ▸ h.slots⟩
  | @pushed t hphase hrun hp hc hslots hitems =>
    obtain ⟨p, hpc, hpid⟩ := ht.tables.owner t (ht.tables.running_lt hrun)
    have hnonneg : 0 ≤ (m.1.tcb t).ownerPid := hpid ▸ (ht.tables.pid_range p hpc).1
    have hran : m.2.ran = 0 := by rw [hphase]; rfl
    obtain ⟨i, hi⟩ := hslots
    rw [hp, hc, Option.toList_some, Option.toList_none, List.append_nil]
    refine ⟨hbuf, ?_, ?_, fun s hs => ?_, fun j => ?_⟩
    · rw [hitems, ← List.append_assoc, ← h.order]
    · refine List.pairwise_append.mpr ⟨h.ascending, List.pairwise_singleton _ _, fun a ha b hb => ?_⟩
      have hsa := h.sample a ha
      rw [hran, add_zero] at hsa
      rw [List.mem_singleton.mp hb]
      exact hsa.lt ht.tables hnonneg
    · rcases List.mem_append.mp hs with hs | hs
      · exact hsample s hs
      · have htick := hlt hphase
        have hs' := tableStep ht
        rw [List.mem_singleton.mp hs]
        refine ⟨m.1.currentTick, ⟨h0, by omega⟩, p, hs'.procCount.symm ▸ hpc, ?_⟩
        rw [hs'.pid, hpid]
    · rw [hi]
      by_cases hji : j = i
      · rw [hji, Function.update_self]
        exact Or.inr (List.mem_append_right _ List.mem_cons_self)
      · rw [Function.update_of_ne hji]
        exact (h.slots j).imp_right (List.mem_append_left _)
  | popped hp hc hslots hitems =>
    rw [hp, hc, Option.toList_none, Option.toList_some, List.append_nil]
    refine ⟨hbuf, ?_, h.ascending, hsample, hslots ▸ h.slots⟩
    rw [List.append_assoc, List.singleton_append, ← hitems]
    exact h.order

theorem stream_machineRun (k₀ : Kernel) (cfg : KernelConfig) {w : List ProcessSpec}
    (hw : ValidWorkload w) (n : ℕ) :
    let k := kernelInit k₀ cfg w
    Stream (machineRun k n) (produced k n) (consumed k n) := by
  intro k
  induction n with
  | zero =>
    have hbuf : k.sensorBuf = bufferInit := sensorBuf_kernelInit k₀ cfg w
    refine ⟨?_, ?_, List.Pairwise.nil, fun s hs => absurd hs List.not_mem_nil, fun i => ?_⟩
    · exact hbuf ▸ inv_bufferInit
    · change [] = [] ++ k.sensorBuf.items
      rw [hbuf]
      rfl
    · change k.sensorBuf.buffer i = 0 ∨ _
      rw [hbuf]
      exact Or.inl rfl
  | succ n ih =>
    have hstep := stream_machineStep (tables_machineRun k₀ cfg hw n) (currentTick_nonneg k₀ cfg hw n) ih
    rw [produced, consumed, gathered_succ, gathered_succ, machineRun_succ]
    exact hstep

/-- The samples are consumed in the order in which they are produced, none is lost and none comes
twice : those that were consumed, followed by those in the buffer, are those that were produced,
and they ascend. Each holds the tick at which it was produced and the pid of its producer. Up to
`lastTick` each is an `int`, so that none of them has overflowed. -/
theorem samples_in_order (k₀ : Kernel) (cfg : KernelConfig) {w : List ProcessSpec}
    (hw : ValidWorkload w) (n : ℕ)
    (hlast : (machineRun (kernelInit k₀ cfg w) n).1.currentTick ≤ lastTick) :
    let k := kernelInit k₀ cfg w
    let m := machineRun k n
    produced k n = consumed k n ++ m.1.sensorBuf.items ∧ (produced k n).Pairwise (· < ·) ∧
      ∀ s ∈ produced k n, IsInt s ∧ (0 ≤ s / 100 ∧ s / 100 ≤ m.1.currentTick) ∧
        ∃ p < m.1.procCount, (m.1.procs p).pid = s % 100 := by
  intro k m
  have h := stream_machineRun k₀ cfg hw n
  refine ⟨h.order, h.ascending, fun s hs => ?_⟩
  obtain ⟨tick, htick, p, hp, rfl⟩ := h.sample s hs
  have hm : maxProcs = 16 := rfl
  have hpid : validPid (m.1.procs p).pid := (tables_machineRun k₀ cfg hw n).tables.pid_range p hp
  obtain ⟨h0, hlt⟩ := hpid
  have hran := Phase.ran_le m.2
  have hlate : tick < m.1.currentTick + m.2.ran := htick.2
  have hbound : m.1.currentTick ≤ 21474836 := hlast
  change IsInt (tick * 100 + (m.1.procs p).pid) ∧ (0 ≤ (tick * 100 + (m.1.procs p).pid) / 100 ∧
    (tick * 100 + (m.1.procs p).pid) / 100 ≤ m.1.currentTick) ∧ _
  refine ⟨⟨?_, ?_⟩, ⟨?_, ?_⟩, p, hp, ?_⟩
  · omega
  · omega
  · omega
  · omega
  · change (m.1.procs p).pid = (tick * 100 + (m.1.procs p).pid) % 100
    omega

/-- The drones, after some samples. -/
theorem samples_in_order_drones :
    let k := kernelInit .zero ⟨.rr, 100, false, false⟩ droneWorkload
    let m := machineRun k 400
    produced k 400 = consumed k 400 ++ m.1.sensorBuf.items ∧ (produced k 400).Pairwise (· < ·) ∧
      ∀ s ∈ produced k 400, IsInt s ∧ (0 ≤ s / 100 ∧ s / 100 ≤ m.1.currentTick) ∧
        ∃ p < m.1.procCount, (m.1.procs p).pid = s % 100 := by
  have hb : Bounded ⟨.rr, 100, false, false⟩ _ := bounded_machineRun .zero valid_droneWorkload (by decide) 400
  exact samples_in_order .zero ⟨.rr, 100, false, false⟩ valid_droneWorkload 400
    (hb.tick_le.trans (by decide))

end FleetOS
