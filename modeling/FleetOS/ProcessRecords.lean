import FleetOS.MachineSteps

/-!
# Times in the PCBs

Besides its state and its pages the kernel writes two things into the PCB of a process : its wait
time, in the part of a tick that counts it, and its completion tick, where the process ends. All
the rest (`PCB.record`) stays as it was made (`record_machineStep`).
-/

namespace FleetOS

/-- Everything but the state, with its reason, and the pages. -/
def PCB.record (c : PCB) : PCB :=
  { c with state := .new, blockedReason := .none, pageTable := fun _ => -1, pagesUsed := 0 }

theorem unpaged_record : Unpaged PCB.record := fun _ _ _ => rfl

def SameRecords (k k' : Kernel) : Prop := ∀ p, (k'.procs p).record = (k.procs p).record

variable {k k' k'' : Kernel}

namespace SameRecords

theorem refl (k : Kernel) : SameRecords k k := fun _ => rfl

theorem trans (h : SameRecords k k') (h' : SameRecords k' k'') : SameRecords k k'' :=
  fun p => (h' p).trans (h p)

theorem of_procs (h : k'.procs = k.procs) : SameRecords k k' := fun p => by rw [h]

theorem foldl {α : Type*} {f : Kernel → α → Kernel} (hf : ∀ k a, SameRecords k (f k a)) :
    ∀ (l : List α) (k : Kernel), SameRecords k (l.foldl f k)
  | [], k => refl k
  | a :: l, k => (hf k a).trans (foldl hf l (f k a))

theorem setProc (k : Kernel) (p : ℕ) {f : PCB → PCB} (hf : (f (k.procs p)).record = (k.procs p).record) :
    SameRecords k (k.setProc p f) := by
  intro q
  by_cases hq : q = p
  · rw [hq, setProc_self, hf]
  · rw [setProc_of_ne k hq]

end SameRecords

theorem Steady.sameRecords (h : Steady k k') : SameRecords k k' := by
  intro p
  rw [h.procs p]
  rfl

/-! ## The parts of a tick -/

theorem sameRecords_arrive (k : Kernel) (p : ℕ) : SameRecords k (arrive k p) := by
  by_cases h : (k.procs p).state = .new ∧ (k.procs p).arrivalTime ≤ k.currentTick
  · exact (SameRecords.setProc k p rfl).trans (steady_arrive h).1.sameRecords
  · have he : arrive k p = k := if_neg h
    rw [he]
    exact .refl k

theorem sameRecords_completeIoEvent (k : Kernel) (i : ℕ) : SameRecords k (completeIoEvent k i) := by
  unfold completeIoEvent
  dsimp only
  split_ifs
  · exact .refl k
  · cases k.findProc (k.pending i).pid with
    | none => exact .of_procs rfl
    | some p =>
      refine SameRecords.trans ?_ (.of_procs rfl)
      exact (steady_unblockOwned { k with fs := _ } _ _).sameRecords

theorem sameRecords_completePageFault (k : Kernel) (i : ℕ) :
    SameRecords k (completePageFault k i) := by
  unfold completePageFault
  dsimp only
  split_ifs
  · exact .refl k
  · cases k.findProc (k.pending i).pid with
    | none => exact .of_procs rfl
    | some p =>
      set r := resolvePageFault k.mem k.procs k.procCount p (k.pending i).page
      have hr : SameRecords k { k with mem := r.1, procs := r.2 } :=
        resolvePageFault_unpaged unpaged_record k.mem k.procs k.procCount p (k.pending i).page
      exact hr.trans (steady_unblockOwned { k with mem := r.1, procs := r.2 } _ _).sameRecords

theorem sameRecords_executeCommand (k : Kernel) (t : ℕ) : SameRecords k (executeCommand k t) := by
  unfold executeCommand
  cases threadCurrentCommand (k.tcb t) with
  | compute => exact .of_procs rfl
  | produceData => exact (steady_executeProduce k t).sameRecords
  | consumeData => exact (steady_executeConsume k t).sameRecords
  | acquireResource => exact (steady_executeAcquire k t).sameRecords
  | ioWrite =>
    obtain ⟨k₁, fs, hs, he⟩ := executeIoWrite_eq k t
    have hw : SameRecords k₁ (executeIoWrite k t) := by
      rw [he, registerIo_rest]
      exact .of_procs rfl
    exact hs.sameRecords.trans hw

theorem sameRecords_triggerPageFault (k : Kernel) : SameRecords k (triggerPageFault k) := by
  rcases triggerPageFault_cases k with
    ⟨pcb, addr, he⟩ | he | ⟨t, p, pcb, addr, page, -, -, -, -, -, he⟩
  · rw [he]
    exact .of_procs rfl
  · rw [he]
    exact .refl k
  · rw [he, registerPageFault_rest]
    exact (steady_blockThread { k with mem := (memAccess k.mem pcb addr).mem } t .pageFault).sameRecords

/-! ## The end of a process -/

/-- Process `p` ends : its completion tick is written, and nothing else in the records. -/
structure Finishes (k k' : Kernel) (p : ℕ) : Prop where
  self : (k'.procs p).record = { (k.procs p).record with completionTick := k.currentTick }
  other : ∀ q, q ≠ p → (k'.procs q).record = (k.procs q).record
  new : ∀ q, q ≠ p → ((k'.procs q).state = .new ↔ (k.procs q).state = .new)

theorem finishes_terminate (k : Kernel) (p : ℕ) : Finishes k (terminate k p) p := by
  refine ⟨?_, fun q hq => by rw [terminate_procs_of_ne k hq],
    fun q hq => by rw [terminate_procs_of_ne k hq]⟩
  unfold terminate
  dsimp only
  rw [setProc_self]
  simp only [PCB.record, pcbSetState, Kernel.setProc, Function.update_self, memFreeProcess]

namespace Finishes

variable {p : ℕ}

theorem after (h : Finishes k' k'' p) (hs : SameRecords k k') (hc : Calm k k') :
    Finishes k k'' p :=
  ⟨by rw [h.self, hs p, hc.currentTick], fun q hq => (h.other q hq).trans (hs q),
    fun q hq => (h.new q hq).trans (hc.new q)⟩

theorem before (h : Finishes k k' p) (hs : Steady k' k'') : Finishes k k'' p :=
  ⟨(hs.sameRecords p).trans h.self, fun q hq => (hs.sameRecords q).trans (h.other q hq),
    fun q hq => (hs.new q).trans (h.new q hq)⟩

end Finishes

theorem sameRecords_applyWoken (k : Kernel) (r : ResourceGraph × List ℤ) :
    SameRecords k (applyWoken k r) :=
  (steady_applyWoken k r).sameRecords

theorem finishes_cleanupProcess (k : Kernel) (p : ℕ) (release : Bool) :
    Finishes k (cleanupProcess k p release) p := by
  set pid := (k.procs p).pid
  have hw : Calm k (withdraw k pid) := .of_rest rfl
  set k₁ := if release then releaseResources (withdraw k pid) pid else withdraw k pid with hk₁
  have h₁ : SameRecords k k₁ ∧ Calm k k₁ := by
    rw [hk₁]
    split_ifs
    · exact ⟨sameRecords_applyWoken (withdraw k pid) _,
        hw.trans (releaseStep_releaseResources (withdraw k pid) pid).calm⟩
    · exact ⟨.of_procs rfl, hw⟩
  rw [cleanupProcess_eq]
  exact ((finishes_terminate k₁ p).before (steady_endThreads _ _)).after h₁.1 h₁.2

theorem finishes_endingAt {m : Kernel × Phase} {p : ℕ} (he : endingAt m = some p) :
    Finishes m.1 (machineStep m).1 p := by
  obtain ⟨k, ph⟩ := m
  cases ph with
  | retire t =>
    have hburst : (k.tcb t).state = .running ∧ (k.tcb t).burstRemaining ≤ 0 := by
      by_contra hc
      have hnone : endingProcess k t = none := if_neg hc
      rw [endingAt, hnone] at he
      cases he
    have he : endingProcess k t = some p := he
    simp only [machineStep, retire, if_pos hburst, he]
    exact (finishes_cleanupProcess { k with sched := schedulerTerminate k.sched t } p false).after
      (.of_procs rfl) (.of_rest rfl)
  | detect =>
    have he : deadlockVictim k = some p := he
    set r := deadlockResolve k.graph (k.procs p).pid
    simp only [machineStep, detectDeadlock, he]
    exact (finishes_cleanupProcess _ p false).after (sameRecords_applyWoken k r)
      (releaseStep_applyWoken k r).calm
  | crash =>
    have he : crashedProcess k = some p := he
    simp only [machineStep, injectCrash, he]
    exact finishes_cleanupProcess k p true
  | _ => cases he

/-! ## Every part -/

theorem sameRecords_machineStep {m : Kernel × Phase} (he : endingAt m = none)
    (hw : m.2 ≠ .waitTime) : SameRecords m.1 (machineStep m).1 := by
  obtain ⟨k, ph⟩ := m
  cases ph with
  | top =>
    simp only [machineStep]
    split_ifs <;> exact .of_procs rfl
  | arrivals => exact .foldl sameRecords_arrive _ k
  | ioEvents => exact .foldl sameRecords_completeIoEvent _ k
  | pageFaults => exact .foldl sameRecords_completePageFault _ k
  | compact => exact .of_procs rfl
  | dispatch =>
    simp only [machineStep, ensureRunning]
    split_ifs <;> exact .of_procs rfl
  | execute =>
    cases hrun : k.runningThread with
    | none =>
      simp only [machineStep, hrun]
      exact .refl k
    | some t =>
      simp only [machineStep, hrun]
      exact sameRecords_executeCommand k t
  | retire t =>
    have he : endingProcess k t = none := he
    simp only [machineStep, retire, he]
    split_ifs <;> exact .of_procs rfl
  | detect =>
    have he : deadlockVictim k = none := he
    simp only [machineStep, detectDeadlock, he]
    exact .refl k
  | crash =>
    have he : crashedProcess k = none := he
    simp only [machineStep, injectCrash, he]
    exact .refl k
  | pageFault => exact sameRecords_triggerPageFault k
  | schedTick => exact .of_procs rfl
  | waitTime => exact absurd rfl hw
  | snapshot => exact (steady_snapshotSync k).sameRecords
  | wakeWaiters =>
    exact SameRecords.trans (.of_procs rfl) (drained_wakeBufferWaiters k).steady.sameRecords
  | finish =>
    simp only [machineStep]
    split_ifs <;> exact .of_procs rfl
  | halted => exact .refl k

/-- The wait time of a ready process is counted. -/
def waited (k : Kernel) (p : ℕ) : PCB :=
  if p < k.procCount ∧ (k.procs p).state = .ready then
    { (k.procs p).record with waitTime := (k.procs p).waitTime + 1 }
  else (k.procs p).record

theorem record_trackWaitTime (k : Kernel) (p : ℕ) : ((trackWaitTime k).procs p).record = waited k p := by
  simp only [trackWaitTime, waited]
  split_ifs <;> rfl

/-! ## The start of a run -/

theorem record_memAllocatePage (m : PhysicalMemory) (c : PCB) (page : ℤ) (ei : EvictionInfo) :
    (memAllocatePage m c page ei).pcb.record = c.record := by
  unfold memAllocatePage
  dsimp only
  split_ifs <;> rfl

theorem sameRecords_bootPage (p : ℕ) (k : Kernel) (page : ℤ) : SameRecords k (bootPage p k page) :=
  SameRecords.setProc (f := fun _ => (memAllocatePage k.mem (k.procs p) page ⟨false, 0, 0, 0⟩).pcb) k p
    (record_memAllocatePage _ _ _ _)

theorem state_memAllocatePage (m : PhysicalMemory) (c : PCB) (page : ℤ) (ei : EvictionInfo) :
    (memAllocatePage m c page ei).pcb.state = c.state := by
  unfold memAllocatePage
  dsimp only
  split_ifs <;> rfl

theorem procs_bootThreads (p : ℕ) (l : List ThreadSpec) (k : Kernel) :
    (l.foldl (bootThread p) k).procs = k.procs :=
  List.foldlRecOn (motive := fun k' : Kernel => k'.procs = k.procs) l _ rfl fun _ h _ _ => h

/-- What the loop of `kernel_init` does to the PCBs, for process `i`. -/
structure BootedRecord (k k' : Kernel) (spec : ProcessSpec) (i : ℕ) : Prop where
  other : ∀ q, q ≠ i → k'.procs q = k.procs q
  self : (k'.procs i).record = { k.procs i with arrivalTime := spec.arrivalTime }.record
  state : (k'.procs i).state = (k.procs i).state ∨
    (k'.procs i).state = .ready ∧ spec.arrivalTime = 0

theorem bootedRecord_bootProcess (k : Kernel) (spec : ProcessSpec) (i : ℕ) :
    BootedRecord k (bootProcess k (spec, i)) spec i := by
  set k₁ := k.setProc i fun c => { c with arrivalTime := spec.arrivalTime } with hk₁
  set k₂ : Kernel :=
    { k₁ with graph := deadlockSetPriority k₁.graph (k₁.procs i).pid (k₁.procs i).priority }
  set k₃ := bootPage i (bootPage i k₂ 0) 1 with hk₃
  set k₄ := spec.threads.foldl (bootThread i) k₃ with hk₄
  have hprocs : k₄.procs = k₃.procs := procs_bootThreads i spec.threads k₃
  have hrecord : ∀ q, (k₄.procs q).record = (k₁.procs q).record := fun q =>
    (congrArg (fun f => (f q).record) hprocs).trans
      (((sameRecords_bootPage i k₂ 0).trans (sameRecords_bootPage i _ 1)) q)
  have hself : k₁.procs i = { k.procs i with arrivalTime := spec.arrivalTime } := setProc_self _ _ _
  have hstate : (k₄.procs i).state = (k.procs i).state := by
    rw [hprocs, hk₃, bootPage, bootPage]
    simp only [Kernel.setProc, Function.update_self, state_memAllocatePage]
    exact (congrArg PCB.state hself).trans rfl
  have hother : ∀ q, q ≠ i → k₄.procs q = k.procs q := by
    intro q hq
    rw [hprocs, hk₃, bootPage, bootPage]
    simp only [Kernel.setProc, Function.update_of_ne hq]
    change k₁.procs q = k.procs q
    exact setProc_of_ne k hq _
  have harrival : (k₄.procs i).arrivalTime = spec.arrivalTime := by
    have ha : (k₄.procs i).record.arrivalTime = (k₁.procs i).record.arrivalTime := by rw [hrecord i]
    exact ha.trans (congrArg PCB.arrivalTime hself)
  have hboot : bootProcess k (spec, i) =
      if (k₄.procs i).arrivalTime = 0 then
        (List.range' k₃.threadCount spec.threads.length).foldl
          (fun k t => { k with sched := schedulerAdd k.sched t })
          (k₄.setProc i fun c => pcbSetState c .ready)
      else k₄ := rfl
  rw [hboot]
  split_ifs with h0
  · have hqueue : ∀ (l : List ℕ) (k : Kernel),
        (l.foldl (fun k t => { k with sched := schedulerAdd k.sched t }) k).procs = k.procs :=
      fun l k => List.foldlRecOn (motive := fun k' : Kernel => k'.procs = k.procs) l _ rfl
        fun _ h _ _ => h
    rw [harrival] at h0
    refine ⟨fun q hq => ?_, ?_, Or.inr ⟨?_, h0⟩⟩ <;> rw [hqueue]
    · rw [setProc_of_ne k₄ hq, hother q hq]
    · rw [setProc_self, ← hself]
      exact hrecord i
    · rw [setProc_self]
      rfl
  · exact ⟨hother, by rw [← hself]; exact hrecord i, Or.inl hstate⟩

/-- The PCB of a process of the workload when the simulation starts. -/
structure Created (spec : ProcessSpec) (c : PCB) : Prop where
  record : c.record = { spec.create with arrivalTime := spec.arrivalTime }.record
  state : c.state = .new ∨ c.state = .ready ∧ spec.arrivalTime = 0

theorem created_foldl : ∀ (l : List ProcessSpec) (i : ℕ) (k : Kernel),
    (∀ j (hj : j < l.length), k.procs (i + j) = l[j].create) →
      (∀ q < i, ((l.zipIdx i).foldl bootProcess k).procs q = k.procs q) ∧
        ∀ j (hj : j < l.length), Created l[j] (((l.zipIdx i).foldl bootProcess k).procs (i + j))
  | [], _, _, _ => ⟨fun _ _ => rfl, fun _ hj => absurd hj (Nat.not_lt_zero _)⟩
  | spec :: l, i, k, hk => by
    have hb := bootedRecord_bootProcess k spec i
    have hi : k.procs i = spec.create := hk 0 (Nat.succ_pos _)
    obtain ⟨hbelow, hrest⟩ := created_foldl l (i + 1) (bootProcess k (spec, i)) fun j hj => by
      rw [hb.other _ (by omega), Nat.add_assoc, Nat.add_comm 1 j]
      exact hk (j + 1) (Nat.succ_lt_succ hj)
    rw [List.zipIdx_cons, List.foldl_cons]
    refine ⟨fun q hq => (hbelow q (by omega)).trans (hb.other q (by omega)), fun j hj => ?_⟩
    cases j with
    | zero =>
      rw [List.getElem_cons_zero]
      change Created spec ((List.foldl bootProcess (bootProcess k (spec, i)) (l.zipIdx (i + 1))).procs i)
      rw [hbelow i (by omega)]
      have hnew : spec.create.state = .new := rfl
      refine ⟨by rw [hb.self, hi], hb.state.imp (fun hs => ?_) id⟩
      rw [hs, hi, hnew]
    | succ j =>
      rw [List.getElem_cons_succ, ← Nat.add_assoc, Nat.add_right_comm]
      exact hrest j (Nat.lt_of_succ_lt_succ hj)

theorem created_kernelInit (k₀ : Kernel) (cfg : KernelConfig) {w : List ProcessSpec} {p : ℕ}
    (hp : p < w.length) : Created w[p] ((kernelInit k₀ cfg w).procs p) := by
  have h := (created_foldl w 0 (clearedKernel k₀ cfg w) fun j hj => by
    simp [clearedKernel, hj]).2 p hp
  rwa [Nat.zero_add] at h

end FleetOS
