import FleetOS.PendingEvents
import FleetOS.SharedFrames

/-!
# The page that is touched

Every `PAGE_FAULT_INTERVAL` ticks `trigger_page_fault` has the running process touch a new page,
and takes for its number the number of pages that the process has. The mapped pages of a process
are the first ones until an eviction takes one from among them. From then on the page with that
number can be a mapped one; the access succeeds, and nothing else happens.

In every run the entries of the page tables are frames or `-1` (`pages_machineRun`), so the thread
faults exactly where the page is unmapped, and its event is registered exactly where the array has
a slot for it (`faultsUnmapped_iff`).
-/

namespace FleetOS

/-! ## Page tables -/

theorem ValidEntries.congr {c c' : PCB} (h : ValidEntries c) (ht : c'.pageTable = c.pageTable) :
    ValidEntries c' := by
  unfold ValidEntries
  rw [ht]
  exact h

theorem validEntries_update {c c' : PCB} (h : ValidEntries c) {page f : ℤ}
    (hf : f = -1 ∨ f ∈ frameIndices) (ht : c'.pageTable = Function.update c.pageTable page f) :
    ValidEntries c' := by
  intro x hx
  rw [ht]
  by_cases hxp : x = page
  · subst hxp
    rw [Function.update_self]
    exact hf
  · rw [Function.update_of_ne hxp]
    exact h x hx

theorem validEntries_allocate {c : PCB} (h : ValidEntries c) (m : PhysicalMemory) (page : ℤ)
    (ei : EvictionInfo) : ValidEntries (memAllocatePage m c page ei).pcb := by
  rcases memAllocatePage_cases m c page ei with
    ⟨-, ei', ret, -, he⟩ | ⟨-, -, ⟨f, hf, -, he⟩ | ⟨-, f, hf, he⟩⟩
  · rw [he]
    exact h
  · exact validEntries_update h (Or.inr hf) (congrArg (fun r => r.pcb.pageTable) he)
  · exact validEntries_update h (Or.inr hf) (congrArg (fun r => r.pcb.pageTable) he)

theorem validEntries_mapped {procs : ℕ → PCB} {i : ℕ} (h : ValidEntries (procs i)) (p : ℕ)
    (page : ℤ) {f : ℤ} (hf : f ∈ frameIndices) : ValidEntries (mapped procs p page f i) := by
  intro x hx
  rw [mapped_pageTable]
  split_ifs
  · exact Or.inr hf
  · exact h x hx

theorem validEntries_repairVictim {procs : ℕ → PCB} {i : ℕ} (h : ValidEntries (procs i)) (n : ℕ)
    (ei : EvictionInfo) : ValidEntries (repairVictim procs n ei i) := by
  cases hf : findProc procs n ei.victimPid with
  | none =>
    simp only [repairVictim, hf, ite_self]
    exact h
  | some v =>
    simp only [repairVictim, hf]
    split_ifs
    · by_cases hi : i = v
      · subst hi
        rw [Function.update_self]
        exact validEntries_update h (Or.inl rfl) rfl
      · rw [Function.update_of_ne hi]
        exact h
    · exact h
    · exact h

theorem validEntries_resolve {m : PhysicalMemory} {procs : ℕ → PCB} {i : ℕ}
    (h : ValidEntries (procs i)) (n p : ℕ) (page : ℤ) :
    ValidEntries ((resolvePageFault m procs n p page).2 i) := by
  rcases resolvePageFault_cases m procs n p page with
    he | ⟨-, -, ⟨f, hf, -, he⟩ | ⟨f, hf, -, he⟩⟩
  · rw [he]
    exact h
  · rw [he]
    exact validEntries_mapped h p page hf
  · rw [he]
    exact validEntries_repairVictim (validEntries_mapped h p page hf) n _

/-- The entries of all page tables are frames or `-1`. -/
def Kernel.ValidPages (k : Kernel) : Prop := ∀ p < k.procCount, ValidEntries (k.procs p)

namespace Kernel.ValidPages

variable {k k' : Kernel}

theorem of_table (h : k.ValidPages) (hc : k'.procCount = k.procCount)
    (ht : ∀ p, (k'.procs p).pageTable = (k.procs p).pageTable) : k'.ValidPages :=
  fun p hp => (h p (hc ▸ hp)).congr (ht p)

theorem of_procs (h : k.ValidPages) (hc : k'.procCount = k.procCount) (hp : k'.procs = k.procs) :
    k'.ValidPages :=
  h.of_table hc fun p => by rw [hp]

theorem steady (h : k.ValidPages) (hs : Steady k k') : k'.ValidPages :=
  h.of_table hs.procCount fun p => by rw [hs.procs p]

/-- Nothing happens to the processes before `k₁`. -/
theorem after {k₁ : Kernel} (h : k.ValidPages) (hs : Steady k₁ k')
    (hc : k₁.procCount = k.procCount) (hp : k₁.procs = k.procs) : k'.ValidPages :=
  (h.of_procs hc hp).steady hs

theorem setProc (h : k.ValidPages) {p : ℕ} {f : PCB → PCB}
    (hf : ValidEntries (k.procs p) → ValidEntries (f (k.procs p))) : (k.setProc p f).ValidPages := by
  intro q hq
  by_cases hqp : q = p
  · subst hqp
    rw [setProc_self]
    exact hf (h q hq)
  · rw [setProc_of_ne k hqp]
    exact h q hq

theorem foldl {α : Type*} {f : Kernel → α → Kernel} {l : List α}
    (hf : ∀ k, ∀ a ∈ l, k.ValidPages → (f k a).ValidPages) (h : k.ValidPages) :
    (l.foldl f k).ValidPages :=
  List.foldlRecOn l f h fun k hk a ha => hf k a ha hk

theorem arrive (h : k.ValidPages) (p : ℕ) : (arrive k p).ValidPages := by
  by_cases hnew : (k.procs p).state = .new ∧ (k.procs p).arrivalTime ≤ k.currentTick
  · exact (h.setProc (f := fun c => pcbSetState c .ready) fun hv => hv.congr rfl).steady
      (steady_arrive hnew).1
  · rw [FleetOS.arrive, if_neg hnew]
    exact h

theorem completeIoEvent (h : k.ValidPages) (i : ℕ) : (completeIoEvent k i).ValidPages := by
  cases hdue : k.due .ioBlock i with
  | false =>
    simp only [FleetOS.completeIoEvent, hdue, Bool.not_false, if_true]
    exact h
  | true =>
    simp only [FleetOS.completeIoEvent, hdue, Bool.not_true, Bool.false_eq_true, if_false]
    cases k.findProc (k.pending i).pid with
    | none => exact h.of_procs rfl rfl
    | some p =>
      have hw : ∀ fs, (unblockOwned { k with fs := fs } (k.pending i).pid .ioBlock).ValidPages :=
        fun fs => h.after (steady_unblockOwned _ _ _) rfl rfl
      exact (hw _).of_procs rfl rfl

theorem completePageFault (h : k.ValidPages) (i : ℕ) : (completePageFault k i).ValidPages := by
  cases hdue : k.due .pageFault i with
  | false =>
    simp only [FleetOS.completePageFault, hdue, Bool.not_false, if_true]
    exact h
  | true =>
    simp only [FleetOS.completePageFault, hdue, Bool.not_true, Bool.false_eq_true, if_false]
    cases k.findProc (k.pending i).pid with
    | none => exact h.of_procs rfl rfl
    | some p =>
      have hr : Kernel.ValidPages { k with
          mem := (resolvePageFault k.mem k.procs k.procCount p (k.pending i).page).1
          procs := (resolvePageFault k.mem k.procs k.procCount p (k.pending i).page).2 } :=
        fun q hq => validEntries_resolve (h q hq) _ _ _
      exact (hr.steady (steady_unblockOwned _ (k.procs p).pid .pageFault)).of_procs rfl rfl

theorem executeCommand (h : k.ValidPages) (t : ℕ) : (executeCommand k t).ValidPages := by
  unfold FleetOS.executeCommand
  cases threadCurrentCommand (k.tcb t) with
  | compute => exact h.of_procs rfl rfl
  | produceData => exact h.after (steady_executeProduce k t) rfl rfl
  | consumeData => exact h.after (steady_executeConsume k t) rfl rfl
  | acquireResource => exact h.after (steady_executeAcquire k t) rfl rfl
  | ioWrite =>
    obtain ⟨k₁, fs, hs, he⟩ := executeIoWrite_eq k t
    dsimp only
    rw [he, registerIo_rest]
    exact (h.after hs rfl rfl).of_procs rfl rfl

theorem cleanupProcess (h : k.ValidPages) (p : ℕ) (release : Bool) :
    (cleanupProcess k p release).ValidPages := by
  rw [cleanupProcess_eq]
  refine steady ?_ (steady_endThreads _ _)
  have hfreed : ∀ k : Kernel, k.ValidPages → (terminate k p).ValidPages := by
    intro k hk
    refine setProc (k := { k.setProc p fun _ => (memFreeProcess k.mem (k.procs p)).2 with
      mem := (memFreeProcess k.mem (k.procs p)).1 }) ?_ fun hv => hv.congr rfl
    exact (hk.setProc (f := fun _ => (memFreeProcess k.mem (k.procs p)).2)
      fun _ _ _ => Or.inl rfl).of_procs rfl rfl
  refine hfreed _ ?_
  split_ifs
  · have hw : (applyWoken (withdraw k (k.procs p).pid) (wakeAllWaiters
        (deadlockCleanupProcess k.graph (k.procs p).pid))).ValidPages :=
      h.after (steady_applyWoken _ _) rfl rfl
    exact hw.of_procs rfl rfl
  · exact h.of_procs rfl rfl

theorem triggerPageFault (h : k.ValidPages) : (triggerPageFault k).ValidPages := by
  rcases triggerPageFault_cases k with
    ⟨pcb, addr, he⟩ | he | ⟨t, p, pcb, addr, page, -, -, -, -, -, he⟩
  · rw [he]
    exact h.of_procs rfl rfl
  · rw [he]
    exact h
  · rw [he, registerPageFault_rest]
    have hb : (blockThread { k with mem := (memAccess k.mem pcb addr).mem } t .pageFault).ValidPages :=
      h.after (steady_blockThread _ _ _) rfl rfl
    exact hb.of_procs rfl rfl

theorem machineStep {m : Kernel × Phase} (h : m.1.ValidPages) : (machineStep m).1.ValidPages := by
  obtain ⟨k, ph⟩ := m
  cases ph with
  | top =>
    simp only [FleetOS.machineStep]
    split_ifs
    · exact h
    · exact h.of_procs rfl rfl
  | arrivals => exact foldl (fun k p _ hk => hk.arrive p) h
  | ioEvents => exact foldl (fun k i _ hk => hk.completeIoEvent i) h
  | pageFaults => exact foldl (fun k i _ hk => hk.completePageFault i) h
  | compact => exact h.of_procs rfl rfl
  | dispatch =>
    simp only [FleetOS.machineStep, ensureRunning]
    split_ifs
    · exact h
    · exact h.of_procs rfl rfl
  | execute =>
    simp only [FleetOS.machineStep]
    split
    · exact h
    · exact h.executeCommand _
  | retire t =>
    simp only [FleetOS.machineStep, retire]
    split_ifs
    · have hs : Kernel.ValidPages { k with sched := schedulerTerminate k.sched t } :=
        h.of_procs rfl rfl
      split
      · exact hs
      · exact hs.cleanupProcess _ _
    · exact h
  | detect =>
    simp only [FleetOS.machineStep, detectDeadlock]
    split
    · exact h
    · exact (h.after (steady_applyWoken k _) rfl rfl).cleanupProcess _ _
  | crash =>
    simp only [FleetOS.machineStep, injectCrash]
    split
    · exact h
    · exact h.cleanupProcess _ _
  | pageFault => exact h.triggerPageFault
  | schedTick => exact h.of_procs rfl rfl
  | waitTime =>
    refine h.of_table rfl fun p => ?_
    simp only [FleetOS.machineStep, trackWaitTime]
    split_ifs <;> rfl
  | snapshot => exact h.steady (steady_snapshotSync k)
  | wakeWaiters => exact h.after (drained_wakeBufferWaiters k).steady rfl rfl
  | finish =>
    simp only [FleetOS.machineStep]
    split_ifs
    · exact h
    · exact h.of_procs rfl rfl
  | halted => exact h

theorem bootProcess (h : k.ValidPages) (spec : ProcessSpec × ℕ) : (bootProcess k spec).ValidPages := by
  have hpage : ∀ (k : Kernel) (page : ℤ), k.ValidPages → (bootPage spec.2 k page).ValidPages :=
    fun k page hk => (hk.setProc (f := fun _ => (memAllocatePage k.mem (k.procs spec.2) page
      ⟨false, 0, 0, 0⟩).pcb) fun hv => validEntries_allocate hv _ _ _).of_procs rfl rfl
  have harrival : (k.setProc spec.2 fun c => { c with arrivalTime := spec.1.arrivalTime }).ValidPages :=
    h.setProc fun hv => hv.congr rfl
  set k₁ := k.setProc spec.2 fun c => { c with arrivalTime := spec.1.arrivalTime }
  set k₂ : Kernel := { k₁ with
    graph := deadlockSetPriority k₁.graph (k₁.procs spec.2).pid (k₁.procs spec.2).priority }
  have hpages := hpage _ 1 (hpage k₂ 0 (harrival.of_procs rfl rfl))
  set k₃ := bootPage spec.2 (bootPage spec.2 k₂ 0) 1
  have hthreads : (spec.1.threads.foldl (bootThread spec.2) k₃).ValidPages :=
    foldl (fun k _ _ hk => hk.of_procs rfl rfl) hpages
  set k₄ := spec.1.threads.foldl (bootThread spec.2) k₃
  have hboot : FleetOS.bootProcess k spec =
      if (k₄.procs spec.2).arrivalTime = 0 then
        (List.range' k₃.threadCount spec.1.threads.length).foldl
          (fun k t => { k with sched := schedulerAdd k.sched t })
          (k₄.setProc spec.2 fun c => pcbSetState c .ready)
      else k₄ := rfl
  rw [hboot]
  split_ifs
  · exact foldl (fun k _ _ hk => hk.of_procs rfl rfl) (hthreads.setProc fun hv => hv.congr rfl)
  · exact hthreads

end Kernel.ValidPages

theorem pages_kernelInit (k₀ : Kernel) (cfg : KernelConfig) (w : List ProcessSpec) :
    (kernelInit k₀ cfg w).ValidPages := by
  rw [kernelInit_eq]
  refine Kernel.ValidPages.foldl (fun k spec _ hk => hk.bootProcess spec) fun p hp x _ => Or.inl ?_
  have hp : p < w.length := hp
  simp [clearedKernel, hp, ProcessSpec.create, droneSetCommands, pcbCreate]

theorem pages_machineRun (k₀ : Kernel) (cfg : KernelConfig) (w : List ProcessSpec) (n : ℕ) :
    (machineRun (kernelInit k₀ cfg w) n).1.ValidPages :=
  Machine.invariant (P := fun _ => True) (fun (m : Kernel × Phase) (h : m.1.ValidPages) _ => h.machineStep)
    (fun _ _ => trivial) (pages_kernelInit k₀ cfg w)

/-! ## Faults -/

/-- What the touch of a new page is to do for thread `t` of process `p` : a fault on an unmapped
page, for which the thread is blocked and one event is registered. -/
def FaultsUnmapped (k : Kernel) (t p : ℕ) : Prop :=
  ∃ page ∈ pageIndices, (k.procs p).pageTable page = -1 ∧
    ((triggerPageFault k).tcb t).state = .blocked ∧
    ((triggerPageFault k).tcb t).waitReason = .pageFault ∧
    ∃ e : PendingEvent, e.pid = (k.procs p).pid ∧ e.reason = .pageFault ∧ e.page = page ∧
      e.completionTick = k.currentTick + pageFaultDuration ∧
      (triggerPageFault k).events.Perm (e :: k.events)

section fault

variable {k : Kernel} {t p : ℕ}

theorem memGetPageCount_mem {c : PCB} (h : memGetPageCount c < maxPages) :
    memGetPageCount c ∈ pageIndices :=
  mem_pageIndices.mpr ⟨Int.natCast_nonneg _, h⟩

/-- An access at the start of a page. -/
theorem memAccess_pageStart (m : PhysicalMemory) (c : PCB) {page : ℤ} (hpage : page ∈ pageIndices) :
    memAccess m c (page * pageSize) =
      if c.pageTable page = -1 then ⟨m, -1, some page⟩
      else ⟨{ m with lastAccess := Function.update m.lastAccess (c.pageTable page) m.currentTick },
        c.pageTable page * pageSize, none⟩ := by
  have hpos := (mem_pageIndices.mp hpage).1
  have hdiv : page * pageSize / pageSize = page := by
    unfold pageSize
    omega
  have hmod : page * pageSize % pageSize = 0 := by
    unfold pageSize
    omega
  have haddr : ¬Truncated (page * pageSize) := by
    unfold Truncated pageSize
    omega
  rw [memAccess_eq m c haddr, hdiv, hmod, if_pos hpage, add_zero]

/-- The thread faults where the page is unmapped, and goes on where it is mapped. -/
theorem triggerPageFault_due (hv : k.ValidPages) (hoff : k.config.deadlockEnabled = false)
    (hpos : 0 < k.currentTick) (hmod : k.currentTick % pageFaultInterval = 0)
    (hrun : k.runningThread = some t) (hp : k.findProc (k.tcb t).ownerPid = some p)
    (hc : memGetPageCount (k.procs p) < maxPages) :
    ((k.procs p).pageTable (memGetPageCount (k.procs p)) = -1 ∧ triggerPageFault k =
      registerPageFault (blockThread k t .pageFault) (k.procs p).pid
        (memGetPageCount (k.procs p))) ∨
    ((k.procs p).pageTable (memGetPageCount (k.procs p)) ≠ -1 ∧
      ∃ mem, triggerPageFault k = { k with mem := mem }) := by
  have hpage := memGetPageCount_mem hc
  have htick : ¬(k.currentTick ≤ 0 ∨ k.currentTick % pageFaultInterval ≠ 0) := by
    rw [not_or, not_le, not_not]
    exact ⟨hpos, hmod⟩
  unfold triggerPageFault
  rw [if_neg (by rw [hoff]; exact Bool.false_ne_true), if_neg htick, hrun]
  simp only [hp, if_neg (not_le.mpr hc), memAccess_pageStart k.mem (k.procs p) hpage]
  by_cases hun : (k.procs p).pageTable (memGetPageCount (k.procs p)) = -1
  · simp only [hun, if_true]
    exact Or.inl ⟨trivial, rfl⟩
  · have hf := (hv p (findProc_some hp).1 _ hpage).resolve_left hun
    have hret : ¬(k.procs p).pageTable (memGetPageCount (k.procs p)) * pageSize < 0 := by
      have := (mem_frameIndices.mp hf).1
      unfold pageSize
      omega
    simp only [hun, if_false, hret]
    exact Or.inr ⟨hun, _, rfl⟩

theorem faultSlot_ne_none : faultSlot k ≠ none ↔
    (∃ i < k.pendingCount, (k.pending i).active = false) ∨ k.pendingCount < maxPending := by
  rw [faultSlot, ne_eq, Option.or_eq_none_iff, not_and_or]
  refine or_congr ?_ ?_
  · simp only [List.find?_eq_none, List.mem_range, Bool.not_eq_true', not_forall, exists_prop,
      Bool.not_eq_false, Bool.not_eq_true]
  · simp

end fault

/-- In every run with deadlock mode off, a running thread whose process has a page left faults on an
unmapped page and gets its event exactly where the page numbered by the count of mapped pages is
unmapped and the array of events has a slot left. -/
theorem faultsUnmapped_iff (k₀ : Kernel) (cfg : KernelConfig) {w : List ProcessSpec}
    (hw : ValidWorkload w) (hoff : cfg.deadlockEnabled = false) {run : ℕ → Kernel × Phase}
    (hrun : run = machineRun (kernelInit k₀ cfg w)) {n : ℕ} (hph : (run n).2 = .pageFault)
    (hpos : 0 < (run n).1.currentTick) (hmod : (run n).1.currentTick % pageFaultInterval = 0)
    {t p : ℕ} (ht : (run n).1.runningThread = some t)
    (hp : (run n).1.findProc ((run n).1.tcb t).ownerPid = some p)
    (hc : memGetPageCount ((run n).1.procs p) < maxPages) :
    FaultsUnmapped (run n).1 t p ↔
      ((run n).1.procs p).pageTable (memGetPageCount ((run n).1.procs p)) = -1 ∧
        ((∃ i < (run n).1.pendingCount, ((run n).1.pending i).active = false) ∨
          (run n).1.pendingCount < maxPending) := by
  have htab : MachineTables (run n) := hrun ▸ tables_machineRun k₀ cfg hw n
  have hv : (run n).1.ValidPages := hrun ▸ pages_machineRun k₀ cfg w n
  have hcfg : (run n).1.config.deadlockEnabled = false := by
    rw [hrun, config_machineRun k₀ cfg hw]
    exact hoff
  rw [← faultSlot_ne_none]
  generalize run n = m at *
  obtain ⟨k, ph⟩ := m
  dsimp only at *
  obtain ⟨hcur, hstate⟩ := runningThread_some ht
  rcases triggerPageFault_due hv hcfg hpos hmod ht hp hc with ⟨hun, he⟩ | ⟨hmapped, mem, he⟩
  · have hs := steady_blockThread k t .pageFault
    obtain ⟨-, hb, hr⟩ := frame_blockThread htab.tables.disciplined hcur hstate .pageFault
    set k₁ := blockThread k t .pageFault
    have hsched : (triggerPageFault k).tcb t = k₁.tcb t := by
      rw [he, registerPageFault_rest]
      rfl
    have hslot₁ : faultSlot k₁ = faultSlot k := by
      rw [faultSlot, hs.pending, hs.pendingCount]
      rfl
    have hevents : k₁.events = k.events := events_congr hs.pending hs.pendingCount
    cases hslot : faultSlot k with
    | none =>
      refine iff_of_false ?_ fun h => h.2 rfl
      rintro ⟨page, -, -, -, -, e, -, -, -, -, hperm⟩
      rw [he, registerPageFault_none (hslot₁.trans hslot), hevents] at hperm
      have := hperm.length_eq
      simp at this
    | some slot =>
      have hreg := events_registerPageFault (hslot₁.trans hslot) (k.procs p).pid
        (memGetPageCount (k.procs p))
      rw [← he, hevents] at hreg
      refine iff_of_true ?_ ⟨hun, Option.some_ne_none slot⟩
      exact ⟨_, memGetPageCount_mem hc, hun, hsched ▸ hb, hsched ▸ hr, _, rfl, rfl, rfl,
        congrArg (· + pageFaultDuration) hs.currentTick, hreg⟩
  · refine iff_of_false ?_ fun h => hmapped h.1
    rintro ⟨page, -, -, hb, -⟩
    rw [he] at hb
    have hb : (k.tcb t).state = .blocked := hb
    rw [hstate] at hb
    cases hb

/-- Process `0` runs alone, while seven others have the rest of the frames and arrive later. -/
def evictedWorkload : List ProcessSpec :=
  ⟨0, [], .high, [.compute], 40, 0, [⟨0, [.compute], 40⟩]⟩ ::
    (List.range' 1 7).map fun i => ⟨i, [], .low, [.compute], 1, 100, []⟩

theorem validWorkload_evictedWorkload : ValidWorkload evictedWorkload := by
  decide

/-- In tick `8` it faults on page `2`, for which its page `0` is evicted. In tick `16` it has two
pages, page `2` is one of them, and it does not fault again. -/
theorem faultsUnmapped_evicted :
    let m := machineRun (kernelInit .zero ⟨.rr, 0, false, false⟩ evictedWorkload) 264
    (m.2 = .pageFault ∧ m.1.currentTick = 16 ∧ m.1.runningThread = some 0 ∧
      m.1.findProc (m.1.tcb 0).ownerPid = some 0 ∧ memGetPageCount (m.1.procs 0) = 2 ∧
      (m.1.procs 0).pageTable 0 = -1 ∧ (m.1.procs 0).pageTable 2 = 0) ∧
      ((triggerPageFault m.1).tcb 0).state = .running ∧ ¬FaultsUnmapped m.1 0 0 := by
  intro m
  have hstate : ((triggerPageFault m.1).tcb 0).state = .running := by decide +kernel
  refine ⟨by decide +kernel, hstate, ?_⟩
  rintro ⟨-, -, -, hb, -⟩
  rw [hstate] at hb
  cases hb

/-- In tick `8` page `2` is unmapped. -/
theorem faultsUnmapped_iff_first :
    FaultsUnmapped (machineRun (kernelInit .zero ⟨.rr, 0, false, false⟩ evictedWorkload) 138).1 0 0 :=
  (faultsUnmapped_iff .zero ⟨.rr, 0, false, false⟩ validWorkload_evictedWorkload rfl rfl
    (by decide +kernel) (by decide +kernel) (by decide +kernel) (by decide +kernel)
    (by decide +kernel) (by decide +kernel)).mpr (by decide +kernel)

end FleetOS
