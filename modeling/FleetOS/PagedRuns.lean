import FleetOS.PageTables
import FleetOS.ProcessTimes

/-!
# The memory of a run

A run changes the frames and the page tables in two ways only : a page fault is resolved, and a
process gives its frames back. What both keep is kept by a whole run (`PageInvariant`). One such
invariant is that the frame table and the page tables agree (`Mapping`) : it holds from the
start on if the pages of `kernel_init` fit into the frames, and then no two processes ever see one
frame (`isolated_machineRun`). With it or without, every frame that is taken has an owner that
`kernel_shutdown` knows, in whatever state the run has been stopped (`kernelShutdown_frees`).
-/

namespace FleetOS

/-! ## Steps -/

/-- The owners of the frames, the free count and the page tables are the same. -/
structure SamePages (k k' : Kernel) : Prop where
  frames : k'.mem.frames = k.mem.frames
  framePages : k'.mem.framePages = k.mem.framePages
  freeFrameCount : k'.mem.freeFrameCount = k.mem.freeFrameCount
  procCount : k'.procCount = k.procCount
  pid : ∀ p, (k'.procs p).pid = (k.procs p).pid
  pageTable : ∀ p, (k'.procs p).pageTable = (k.procs p).pageTable
  pagesUsed : ∀ p, (k'.procs p).pagesUsed = (k.procs p).pagesUsed

/-- The kernel after a page fault of process `p` is resolved. -/
def Kernel.resolved (k : Kernel) (p : ℕ) (page : ℤ) : Kernel :=
  let r := resolvePageFault k.mem k.procs k.procCount p page
  { k with mem := r.1, procs := r.2 }

/-- What is read off from the frames and the page tables and kept by the two kinds of steps. -/
structure PageInvariant (I : Kernel → Prop) : Prop where
  same : ∀ {k k'}, SamePages k k' → I k → I k'
  resolve : ∀ {k p}, PidTable k.procs k.procCount → p < k.procCount → ∀ page, I k →
    I (k.resolved p page)
  terminate : ∀ {k p}, PidTable k.procs k.procCount → p < k.procCount → I k → I (terminate k p)

section steps

variable {k k' k'' : Kernel} {p : ℕ}

namespace SamePages

theorem refl (k : Kernel) : SamePages k k := ⟨rfl, rfl, rfl, rfl, fun _ => rfl, fun _ => rfl, fun _ => rfl⟩

theorem trans (h : SamePages k k') (h' : SamePages k' k'') : SamePages k k'' :=
  ⟨h'.frames.trans h.frames, h'.framePages.trans h.framePages,
    h'.freeFrameCount.trans h.freeFrameCount, h'.procCount.trans h.procCount,
    fun p => (h'.pid p).trans (h.pid p), fun p => (h'.pageTable p).trans (h.pageTable p),
    fun p => (h'.pagesUsed p).trans (h.pagesUsed p)⟩

theorem of_mem (hm : k'.mem = k.mem) (hn : k'.procCount = k.procCount) (hp : k'.procs = k.procs) :
    SamePages k k' := by
  refine ⟨?_, ?_, ?_, hn, fun p => ?_, fun p => ?_, fun p => ?_⟩ <;> first | rw [hm] | rw [hp]

theorem foldl {α : Type*} {f : Kernel → α → Kernel} (hf : ∀ k a, SamePages k (f k a)) (l : List α)
    (k : Kernel) : SamePages k (l.foldl f k) :=
  List.foldlRecOn (motive := fun k' => SamePages k k') l f (.refl k) fun _ h a _ => h.trans (hf _ a)

/-- A process changes outside its page table. -/
theorem setProc (k : Kernel) (p : ℕ) {f : PCB → PCB} (hpid : ∀ c, (f c).pid = c.pid)
    (htab : ∀ c, (f c).pageTable = c.pageTable) (hused : ∀ c, (f c).pagesUsed = c.pagesUsed) :
    SamePages k (k.setProc p f) := by
  have hself := setProc_self k p f
  have hother : ∀ q, q ≠ p → (k.setProc p f).procs q = k.procs q := fun q hq => setProc_of_ne k hq f
  refine ⟨rfl, rfl, rfl, rfl, fun q => ?_, fun q => ?_, fun q => ?_⟩ <;>
  · by_cases hq : q = p
    · subst hq
      rw [hself]
      simp only [hpid, htab, hused]
    · rw [hother q hq]

theorem pidTable (h : SamePages k k') (ht : PidTable k.procs k.procCount) :
    PidTable k'.procs k'.procCount := by
  rw [h.procCount]
  exact ht.congr h.pid

end SamePages

theorem Steady.samePages (h : Steady k k') : SamePages k k' := by
  have hread : ∀ {β : Type} (g : PCB → β) (p : ℕ), (∀ c s r, g { c with state := s, blockedReason := r } = g c) →
      g (k'.procs p) = g (k.procs p) := fun g p hg => (congrArg g (h.procs p)).trans (hg _ _ _)
  exact ⟨by rw [h.mem], by rw [h.mem], by rw [h.mem], h.procCount,
    fun p => hread PCB.pid p fun _ _ _ => rfl, fun p => hread PCB.pageTable p fun _ _ _ => rfl,
    fun p => hread PCB.pagesUsed p fun _ _ _ => rfl⟩

theorem samePages_arrive (k : Kernel) (p : ℕ) : SamePages k (arrive k p) := by
  by_cases hnew : (k.procs p).state = .new ∧ (k.procs p).arrivalTime ≤ k.currentTick
  · have hset : SamePages k (k.setProc p fun c => pcbSetState c .ready) :=
      .setProc k p (fun _ => rfl) (fun _ => rfl) fun _ => rfl
    exact hset.trans (steady_arrive hnew).1.samePages
  · have he : arrive k p = k := if_neg hnew
    rw [he]
    exact .refl k

theorem samePages_completeIoEvent (k : Kernel) (i : ℕ) : SamePages k (completeIoEvent k i) := by
  unfold completeIoEvent
  dsimp only
  split_ifs
  · exact .refl k
  · cases k.findProc (k.pending i).pid with
    | none => exact .of_mem rfl rfl rfl
    | some p =>
      set fs' := (fsWrite k.fs (k.pending i).path (sensorData (k.pending i).pid
        (k.pending i).completionTick)
        (sensorData (k.pending i).pid (k.pending i).completionTick).length).1
      have hfs : SamePages k { k with fs := fs' } := .of_mem rfl rfl rfl
      have hwake := (steady_unblockOwned { k with fs := fs' } (k.pending i).pid .ioBlock).samePages
      exact (hfs.trans hwake).trans (.of_mem rfl rfl rfl)

theorem samePages_executeCommand (k : Kernel) (t : ℕ) : SamePages k (executeCommand k t) := by
  have hsame : ∀ {k₁ k₂ : Kernel}, Steady k₁ k₂ → SamePages k k₁ → SamePages k k₂ :=
    fun h₂ h₁ => h₁.trans h₂.samePages
  unfold executeCommand
  cases threadCurrentCommand (k.tcb t) with
  | compute => exact (steady_setTcb k t _).samePages
  | produceData => exact hsame (steady_executeProduce k t) (.of_mem rfl rfl rfl)
  | consumeData => exact hsame (steady_executeConsume k t) (.of_mem rfl rfl rfl)
  | acquireResource => exact hsame (steady_executeAcquire k t) (.of_mem rfl rfl rfl)
  | ioWrite =>
    obtain ⟨k₁, fs, hs, he⟩ := executeIoWrite_eq k t
    have hio : SamePages k (executeIoWrite k t) := by
      rw [he, registerIo_rest]
      exact (hsame hs (.of_mem rfl rfl rfl)).trans (.of_mem rfl rfl rfl)
    exact hio

theorem samePages_applyWoken (k : Kernel) (r : ResourceGraph × List ℤ) :
    SamePages k (applyWoken k r) := by
  have hg : SamePages k { k with graph := r.1 } := .of_mem rfl rfl rfl
  exact hg.trans (steady_applyWoken k r).samePages

theorem samePages_withdraw (k : Kernel) (pid : ℤ) : SamePages k (withdraw k pid) := .of_mem rfl rfl rfl

theorem samePages_releaseResources (k : Kernel) (pid : ℤ) : SamePages k (releaseResources k pid) :=
  (samePages_applyWoken k _).trans (.of_mem rfl rfl rfl)

/-- An access changes access times only. -/
theorem samePages_memAccess (k : Kernel) (pcb : PCB) (addr : ℤ) :
    SamePages k { k with mem := (memAccess k.mem pcb addr).mem } := by
  unfold memAccess
  dsimp only
  split_ifs <;> exact ⟨rfl, rfl, rfl, rfl, fun _ => rfl, fun _ => rfl, fun _ => rfl⟩

theorem samePages_triggerPageFault (k : Kernel) : SamePages k (triggerPageFault k) := by
  rcases triggerPageFault_cases k with ⟨pcb, addr, he⟩ | he | ⟨t, p, pcb, addr, page, -, -, -, -, -, he⟩
  · rw [he]
    exact samePages_memAccess k pcb addr
  · rw [he]
    exact .refl k
  · rw [he, registerPageFault_rest]
    have hb := (steady_blockThread { k with mem := (memAccess k.mem pcb addr).mem } t .pageFault).samePages
    exact ((samePages_memAccess k pcb addr).trans hb).trans (.of_mem rfl rfl rfl)

theorem samePages_trackWaitTime (k : Kernel) : SamePages k (trackWaitTime k) := by
  refine ⟨rfl, rfl, rfl, rfl, fun p => ?_, fun p => ?_, fun p => ?_⟩ <;>
  · simp only [trackWaitTime]
    split_ifs <;> rfl

end steps

/-! ## Invariants -/

namespace PageInvariant

variable {I : Kernel → Prop} {k : Kernel} {p : ℕ}

/-- The invariant and the pids it rests on. -/
structure Holds (I : Kernel → Prop) (k : Kernel) : Prop where
  pids : PidTable k.procs k.procCount
  holds : I k

theorem Holds.same (hI : PageInvariant I) (h : Holds I k) {k' : Kernel} (hs : SamePages k k') :
    Holds I k' :=
  ⟨hs.pidTable h.pids, hI.same hs h.holds⟩

variable (hI : PageInvariant I)
include hI

theorem completePageFault (h : Holds I k) (i : ℕ) : Holds I (completePageFault k i) := by
  unfold FleetOS.completePageFault
  dsimp only
  split_ifs
  · exact h
  · have hend : ∀ k' : Kernel, SamePages k' (k'.setPending i fun e => { e with active := false }) :=
      fun _ => .of_mem rfl rfl rfl
    cases hf : k.findProc (k.pending i).pid with
    | none => exact h.same hI (hend k)
    | some p =>
      have hr : Holds I (k.resolved p (k.pending i).page) :=
        ⟨h.pids.congr (resolvePageFault_pid _ _ _ _ _), hI.resolve h.pids (findProc_some hf).1 _ h.holds⟩
      have hwake := (steady_unblockOwned (k.resolved p (k.pending i).page) (k.procs p).pid
        .pageFault).samePages
      exact hr.same hI (hwake.trans (hend _))

theorem holds_terminate (h : Holds I k) (hp : p < k.procCount) : Holds I (FleetOS.terminate k p) := by
  refine ⟨h.pids.congr fun q => ?_, hI.terminate h.pids hp h.holds⟩
  by_cases hq : q = p
  · rw [hq, (terminate_procs_self k p).1]
  · rw [terminate_procs_of_ne k hq]

theorem cleanupProcess (h : Holds I k) (hp : p < k.procCount) (release : Bool) :
    Holds I (cleanupProcess k p release) := by
  rw [cleanupProcess_eq]
  set pid := (k.procs p).pid
  set k₁ := if release then releaseResources (withdraw k pid) pid else withdraw k pid with hk₁
  have hs : SamePages k k₁ := by
    rw [hk₁]
    split_ifs
    · exact (samePages_withdraw k pid).trans (samePages_releaseResources _ pid)
    · exact samePages_withdraw k pid
  have hend := hI.holds_terminate (h.same hI hs) (hs.procCount.symm ▸ hp)
  exact hend.same hI (steady_endThreads _ pid).samePages

theorem retire (h : Holds I k) (t : ℕ) : Holds I (retire k t) := by
  have hterm : Holds I { k with sched := schedulerTerminate k.sched t } :=
    h.same hI (.of_mem rfl rfl rfl)
  unfold FleetOS.retire
  dsimp only
  split_ifs with hc
  · cases he : endingProcess k t with
    | none => exact hterm
    | some p =>
      have hp : p < k.procCount := by
        rw [endingProcess, if_pos hc] at he
        exact (findProc_some (Option.filter_eq_some_iff.mp he).1).1
      exact hI.cleanupProcess hterm hp false
  · exact h

theorem holds_machineStep {m : Kernel × Phase} (h : Holds I m.1) : Holds I (machineStep m).1 := by
  obtain ⟨k, ph⟩ := m
  have hsame : SamePages k (machineStep (k, ph)).1 → Holds I (machineStep (k, ph)).1 := h.same hI
  cases ph with
  | top =>
    simp only [machineStep]
    split_ifs
    · exact h
    · exact h.same hI ⟨rfl, rfl, rfl, rfl, fun _ => rfl, fun _ => rfl, fun _ => rfl⟩
  | arrivals => exact hsame (.foldl samePages_arrive _ k)
  | ioEvents => exact hsame (.foldl samePages_completeIoEvent _ k)
  | pageFaults =>
    exact List.foldlRecOn (motive := Holds I) _ FleetOS.completePageFault h fun _ h i _ =>
      hI.completePageFault h i
  | compact => exact hsame (.of_mem rfl rfl rfl)
  | dispatch =>
    simp only [machineStep, ensureRunning]
    split_ifs
    · exact h
    · exact h.same hI (.of_mem rfl rfl rfl)
  | execute =>
    simp only [machineStep]
    split
    · exact h
    · exact h.same hI (samePages_executeCommand k _)
  | retire t => exact hI.retire h t
  | detect =>
    simp only [machineStep, detectDeadlock]
    cases hv : deadlockVictim k with
    | none => exact h
    | some p =>
      have hs := samePages_applyWoken k (deadlockResolve k.graph (k.procs p).pid)
      exact hI.cleanupProcess (h.same hI hs) (hs.procCount.symm ▸ deadlockVictim_lt hv) false
  | crash =>
    simp only [machineStep, injectCrash]
    cases hc : crashedProcess k with
    | none => exact h
    | some p => exact hI.cleanupProcess h (crashedProcess_some hc).choose_spec.2.1 true
  | pageFault => exact hsame (samePages_triggerPageFault k)
  | schedTick => exact hsame (.of_mem rfl rfl rfl)
  | waitTime => exact hsame (samePages_trackWaitTime k)
  | snapshot => exact hsame (steady_snapshotSync k).samePages
  | wakeWaiters =>
    have hb : SamePages k { k with sensorBuf := bufferWoken k.sensorBuf } := .of_mem rfl rfl rfl
    exact hsame (hb.trans (drained_wakeBufferWaiters k).steady.samePages)
  | finish =>
    simp only [machineStep]
    split_ifs
    · exact h
    · exact h.same hI (.of_mem rfl rfl rfl)
  | halted => exact h

end PageInvariant

/-- Who owns the frames, whatever the page tables say. -/
structure FrameTable (k : Kernel) : Prop where
  owner : ∀ f ∈ frameIndices, k.mem.frames f = -1 ∨ ∃ p < k.procCount, k.mem.frames f = (k.procs p).pid
  free : k.mem.freeFrameCount = frameIndices.countP fun f => k.mem.frames f = -1

section tables

variable {k k' : Kernel} {p : ℕ}

theorem FrameTable.same (h : FrameTable k) (hs : SamePages k k') : FrameTable k' := by
  refine ⟨fun f hf => ?_, ?_⟩
  · rw [hs.frames, hs.procCount]
    refine (h.owner f hf).imp_right fun ⟨q, hq, he⟩ => ⟨q, hq, ?_⟩
    rw [he, hs.pid]
  · rw [hs.freeFrameCount, hs.frames]
    exact h.free

/-- A frame goes to process `p`. -/
theorem FrameTable.give (h : FrameTable k) (hp : p < k.procCount) (htaken : (k.procs p).pid ≠ -1)
    {f : ℤ} (hf : f ∈ frameIndices)
    (hframes : k'.mem.frames = Function.update k.mem.frames f (k.procs p).pid)
    (hfree : k'.mem.freeFrameCount = if k.mem.frames f = -1 then k.mem.freeFrameCount - 1
      else k.mem.freeFrameCount)
    (hn : k'.procCount = k.procCount) (hpid : ∀ q, (k'.procs q).pid = (k.procs q).pid) :
    FrameTable k' := by
  refine ⟨fun g hg => ?_, ?_⟩
  · rw [hframes, hn]
    by_cases hgf : g = f
    · rw [hgf, Function.update_self]
      exact Or.inr ⟨p, hp, (hpid p).symm⟩
    · rw [Function.update_of_ne hgf]
      exact (h.owner g hg).imp_right fun ⟨q, hq, he⟩ => ⟨q, hq, he.trans (hpid q).symm⟩
  · have hcount := Counting.countP_update (fun x : ℤ => decide (x = -1)) k.mem.frames (k.procs p).pid
      nodup_frameIndices hf
    simp only [decide_eq_true_eq, htaken, if_false, add_zero] at hcount
    rw [hfree, hframes, h.free]
    split_ifs at hcount ⊢ <;> omega

theorem pageInvariant_frameTable : PageInvariant FrameTable where
  same hs h := h.same hs
  resolve {k p} hpids hp page h := by
    have htaken := hpids.framePids.taken p hp
    have hpid : ∀ q, ((k.resolved p page).procs q).pid = (k.procs q).pid :=
      resolvePageFault_pid k.mem k.procs k.procCount p page
    unfold Kernel.resolved at hpid ⊢
    rcases resolvePageFault_cases k.mem k.procs k.procCount p page with
      he | ⟨-, -, ⟨f, hf, hfree, he⟩ | ⟨f, hf, hfull, he⟩⟩ <;> rw [he] at hpid ⊢
    · exact h
    · exact h.give hp htaken hf rfl (if_pos hfree).symm rfl hpid
    · exact h.give hp htaken hf rfl (if_neg hfull).symm rfl hpid
  terminate {k p} hpids hp h := by
    have htaken := hpids.framePids.taken p hp
    have hpid : ∀ q, ((terminate k p).procs q).pid = (k.procs q).pid := fun q => by
      by_cases hq : q = p
      · rw [hq, (terminate_procs_self k p).1]
      · rw [terminate_procs_of_ne k hq]
    refine ⟨fun f hf => ?_, ?_⟩
    · change (if k.mem.frames f = (k.procs p).pid then -1 else k.mem.frames f) = -1 ∨
        ∃ q < k.procCount, (if k.mem.frames f = (k.procs p).pid then -1 else k.mem.frames f) = _
      split_ifs
      · exact Or.inl rfl
      · exact (h.owner f hf).imp_right fun ⟨q, hq, he⟩ => ⟨q, hq, he.trans (hpid q).symm⟩
    · change k.mem.freeFrameCount + _ = ((frameIndices.countP fun f =>
        (if k.mem.frames f = (k.procs p).pid then -1 else k.mem.frames f) = -1 : ℕ) : ℤ)
      rw [h.free, countP_freed _ htaken]
      push_cast
      rfl

theorem pageInvariant_mapping : PageInvariant fun k => Mapping k.mem k.procs k.procCount where
  same hs h := by
    rw [hs.procCount]
    exact h.congr hs.frames hs.framePages hs.freeFrameCount hs.pid hs.pageTable hs.pagesUsed
  resolve hpids hp page h := h.resolve hpids hp page
  terminate {k p} hpids hp h := by
    have hset : SamePages
        { k.setProc p fun _ => (memFreeProcess k.mem (k.procs p)).2 with
          mem := (memFreeProcess k.mem (k.procs p)).1 } (terminate k p) :=
      .setProc (f := fun c => { pcbSetState c .terminated with completionTick := k.currentTick }) _ p
        (fun _ => rfl) (fun _ => rfl) fun _ => rfl
    rw [hset.procCount]
    exact (h.free_process hpids.framePids hp).congr hset.frames hset.framePages hset.freeFrameCount
      hset.pid hset.pageTable hset.pagesUsed

end tables

/-! ## The start of a run -/

section boot

variable {k : Kernel} {p : ℕ} {page : ℤ}

theorem frameTable_bootPage (h : FrameTable k) (hp : p < k.procCount) (htaken : (k.procs p).pid ≠ -1) :
    FrameTable (bootPage p k page) := by
  have hpid : ∀ q, ((bootPage p k page).procs q).pid = (k.procs q).pid := fun q =>
    (Timed.of_record (sameRecords_bootPage p k page q)).1
  unfold bootPage at hpid ⊢
  rcases memAllocatePage_cases k.mem (k.procs p) page ⟨false, 0, 0, 0⟩ with
    ⟨-, ei, ret, -, he⟩ | ⟨-, -, ⟨f, hf, hfree, he⟩ | ⟨hfull, f, hf, he⟩⟩ <;> rw [he] at hpid ⊢
  · refine h.same ⟨rfl, rfl, rfl, rfl, hpid, fun q => ?_, fun q => ?_⟩ <;>
    · dsimp only [Kernel.setProc]
      rw [Function.update_eq_self]
  · exact h.give hp htaken hf rfl (if_pos hfree).symm rfl hpid
  · exact h.give hp htaken hf rfl (if_neg (hfull f hf)).symm rfl hpid

/-- While a frame is free, no page is evicted. -/
theorem mapping_bootPage (h : Mapping k.mem k.procs k.procCount)
    (hpids : FramePids k.procs k.procCount) (hp : p < k.procCount) (hpage : page ∈ pageIndices)
    (hun : (k.procs p).pageTable page = -1) (hroom : 0 < k.mem.freeFrameCount) :
    Mapping (bootPage p k page).mem (bootPage p k page).procs k.procCount ∧
      (bootPage p k page).mem.freeFrameCount = k.mem.freeFrameCount - 1 ∧
      ∃ f, (bootPage p k page).procs = mapped k.procs p page f := by
  rcases memAllocatePage_cases k.mem (k.procs p) page ⟨false, 0, 0, 0⟩ with
    ⟨hno, -⟩ | ⟨-, -, ⟨f, hf, hfree, he⟩ | ⟨hfull, -⟩⟩
  · exact absurd ⟨hpage, hun⟩ hno
  · have hmap := h.resolve_free hpids hp hpage hun hf hfree
    simp only [bootPage, he]
    exact ⟨hmap, rfl, f, rfl⟩
  · have hnone : (frameIndices.countP fun f => k.mem.frames f = -1) = 0 :=
      List.countP_eq_zero.mpr fun f hf => by simpa using hfull f hf
    rw [h.free, hnone] at hroom
    exact absurd hroom (by decide)

end boot

theorem samePages_schedulerAdds (l : List ℕ) (k : Kernel) :
    SamePages k (l.foldl (fun k t => { k with sched := schedulerAdd k.sched t }) k) :=
  .foldl (f := fun (k : Kernel) t => { k with sched := schedulerAdd k.sched t })
    (fun _ _ => .of_mem rfl rfl rfl) l k

/-- Beside the two pages nothing in the loop of `kernel_init` touches the memory. -/
theorem samePages_bootProcess (k : Kernel) (spec : ProcessSpec) (i : ℕ) :
    ∃ k₁, SamePages k k₁ ∧ SamePages (bootPage i (bootPage i k₁ 0) 1) (bootProcess k (spec, i)) := by
  set k₁ := k.setProc i fun c => { c with arrivalTime := spec.arrivalTime } with hk₁
  set k₂ : Kernel :=
    { k₁ with graph := deadlockSetPriority k₁.graph (k₁.procs i).pid (k₁.procs i).priority }
  set k₃ := bootPage i (bootPage i k₂ 0) 1 with hk₃
  have h₁ : SamePages k k₁ := .setProc k i (fun _ => rfl) (fun _ => rfl) fun _ => rfl
  have hthreads : SamePages k₃ (spec.threads.foldl (bootThread i) k₃) :=
    .foldl (f := bootThread i) (fun _ _ => .of_mem rfl rfl rfl) _ _
  refine ⟨k₂, h₁.trans (.of_mem rfl rfl rfl), ?_⟩
  set k₄ := spec.threads.foldl (bootThread i) k₃
  have hboot : bootProcess k (spec, i) =
      if (k₄.procs i).arrivalTime = 0 then
        (List.range' k₃.threadCount spec.threads.length).foldl
          (fun k t => { k with sched := schedulerAdd k.sched t })
          (k₄.setProc i fun c => pcbSetState c .ready)
      else k₄ := rfl
  rw [hboot]
  split_ifs
  · have hready : SamePages k₄ (k₄.setProc i fun c => pcbSetState c .ready) :=
      .setProc k₄ i (fun _ => rfl) (fun _ => rfl) fun _ => rfl
    exact (hthreads.trans hready).trans (samePages_schedulerAdds _ _)
  · exact hthreads

/-- The memory after the first `i` processes are set up : each has two frames, if there are so
many. -/
structure BootedPages (k : Kernel) (i : ℕ) : Prop where
  mapping : Mapping k.mem k.procs k.procCount
  free : k.mem.freeFrameCount = frameCount - 2 * i
  empty : ∀ p < k.procCount, i ≤ p → ∀ page ∈ pageIndices, (k.procs p).pageTable page = -1

theorem bootedPages_bootProcess {k : Kernel} {i : ℕ} (h : BootedPages k i)
    (hpids : FramePids k.procs k.procCount) (hi : i < k.procCount) (hroom : 2 * i < frameCount)
    (spec : ProcessSpec) : BootedPages (bootProcess k (spec, i)) (i + 1) := by
  obtain ⟨k₁, h₁, h₂⟩ := samePages_bootProcess k spec i
  have hm : frameCount = 16 := rfl
  have hn : k₁.procCount = k.procCount := h₁.procCount
  have hmap := pageInvariant_mapping.same h₁ h.mapping
  have hpids₁ : FramePids k₁.procs k₁.procCount := hn.symm ▸ hpids.congr h₁.pid
  have hfree : k₁.mem.freeFrameCount = frameCount - 2 * i := h₁.freeFrameCount.trans h.free
  have hempty : ∀ p < k.procCount, i ≤ p → ∀ page ∈ pageIndices, (k₁.procs p).pageTable page = -1 :=
    fun p hp hip page hpage => by rw [h₁.pageTable, h.empty p hp hip page hpage]
  -- the first page
  obtain ⟨hmap₁, hfree₁, f, hprocs₁⟩ := mapping_bootPage hmap hpids₁ (hn.symm ▸ hi) (by decide)
    (hempty i hi le_rfl 0 (by decide)) (by omega)
  have hpids₂ : FramePids (bootPage i k₁ 0).procs k₁.procCount := by
    rw [hprocs₁]
    exact hpids₁.congr (mapped_pid _ _ _ _)
  have hun : ((bootPage i k₁ 0).procs i).pageTable 1 = -1 := by
    rw [hprocs₁, mapped_pageTable, if_neg fun hc => by cases hc.2]
    exact hempty i hi le_rfl 1 (by decide)
  -- the second
  obtain ⟨hmap₂, hfree₂, g, hprocs₂⟩ := mapping_bootPage (k := bootPage i k₁ 0) hmap₁ hpids₂
    (hn.symm ▸ hi) (by decide) hun (by omega)
  refine ⟨pageInvariant_mapping.same h₂ hmap₂, ?_, fun p hp hip page hpage => ?_⟩
  · rw [h₂.freeFrameCount, hfree₂, hfree₁, hfree]
    push_cast
    ring
  · have hp : p < k.procCount := hn ▸ (h₂.procCount ▸ hp : p < k₁.procCount)
    have hne : p ≠ i := by omega
    rw [h₂.pageTable, hprocs₂, mapped_pageTable, if_neg fun hc => hne hc.1, hprocs₁, mapped_pageTable,
      if_neg fun hc => hne hc.1]
    exact hempty p hp (by omega) page hpage

theorem pid_bootProcess (k : Kernel) (spec : ProcessSpec) (i q : ℕ) :
    ((bootProcess k (spec, i)).procs q).pid = (k.procs q).pid := by
  have h := bootedRecord_bootProcess k spec i
  by_cases hq : q = i
  · subst hq
    exact (Timed.of_record h.self).1
  · rw [h.other q hq]

theorem procCount_bootProcess (k : Kernel) (spec : ProcessSpec) (i : ℕ) :
    (bootProcess k (spec, i)).procCount = k.procCount := by
  rw [loaded_bootProcess k (spec, i)]

/-- A property of the memory that is kept while the processes at `i` and behind are set up. -/
theorem booted_foldl {B : Kernel → ℕ → Prop} {n : ℕ}
    (hB : ∀ k i spec, FramePids k.procs k.procCount → i < k.procCount → k.procCount = n → B k i →
      B (bootProcess k (spec, i)) (i + 1)) :
    ∀ (l : List ProcessSpec) (i : ℕ) (k : Kernel), FramePids k.procs k.procCount →
      k.procCount = n → i + l.length = n → B k i → B ((l.zipIdx i).foldl bootProcess k) n
  | [], i, k, _, _, hl, h => by
    obtain rfl : i = n := hl
    exact h
  | spec :: l, i, k, hpids, hn, hl, h => by
    rw [List.length_cons] at hl
    rw [List.zipIdx_cons, List.foldl_cons]
    have hn' := (procCount_bootProcess k spec i).trans hn
    refine booted_foldl hB l (i + 1) _ ?_ hn' (by omega) (hB k i spec hpids (by omega) hn h)
    rw [procCount_bootProcess]
    exact hpids.congr (pid_bootProcess k spec i)

theorem framePids_clearedKernel (k₀ : Kernel) (cfg : KernelConfig) {w : List ProcessSpec}
    (hw : ValidWorkload w) :
    FramePids (clearedKernel k₀ cfg w).procs (clearedKernel k₀ cfg w).procCount := by
  have hpid : ∀ p (hp : p < w.length), ((clearedKernel k₀ cfg w).procs p).pid = w[p].pid :=
    fun p hp => by simp [clearedKernel, hp, ProcessSpec.create, droneSetCommands, pcbCreate]
  refine ⟨fun i hi j hj he => ?_, fun p hp => ?_⟩
  · rw [hpid i hi, hpid j hj] at he
    exact pid_injective hw.pids hi hj he
  · rw [hpid p hp]
    have := (hw.pid_range _ (List.getElem_mem hp)).1
    omega

theorem frameTable_kernelInit (k₀ : Kernel) (cfg : KernelConfig) {w : List ProcessSpec}
    (hw : ValidWorkload w) : FrameTable (kernelInit k₀ cfg w) := by
  refine booted_foldl (B := fun k _ => FrameTable k) (n := w.length) (fun k i spec hpids hi _ h => ?_) w 0
    (clearedKernel k₀ cfg w) (framePids_clearedKernel k₀ cfg hw) rfl (Nat.zero_add _) ?_
  · obtain ⟨k₁, h₁, h₂⟩ := samePages_bootProcess k spec i
    have hn := h₁.procCount
    have htaken : (k₁.procs i).pid ≠ -1 := h₁.pid i ▸ hpids.taken i hi
    have hpid : ((bootPage i k₁ 0).procs i).pid = (k₁.procs i).pid :=
      (Timed.of_record (sameRecords_bootPage i k₁ 0 i)).1
    have hpage : FrameTable (bootPage i k₁ 0) :=
      frameTable_bootPage (h.same h₁) (hn.symm ▸ hi) htaken
    have hpages : FrameTable (bootPage i (bootPage i k₁ 0) 1) :=
      frameTable_bootPage hpage (hn.symm ▸ hi) (hpid ▸ htaken)
    exact hpages.same h₂
  · refine ⟨fun f _ => Or.inl rfl, ?_⟩
    change (frameCount : ℤ) = ((frameIndices.countP fun _ => (-1 : ℤ) = -1 : ℕ) : ℤ)
    decide

theorem mapping_kernelInit (k₀ : Kernel) (cfg : KernelConfig) {w : List ProcessSpec}
    (hw : ValidWorkload w) (hfit : 2 * w.length ≤ frameCount) :
    Mapping (kernelInit k₀ cfg w).mem (kernelInit k₀ cfg w).procs (kernelInit k₀ cfg w).procCount := by
  have hpids := framePids_clearedKernel k₀ cfg hw
  have hfresh : ∀ p < w.length, ((clearedKernel k₀ cfg w).procs p).Fresh := fun p hp => by
    simp [clearedKernel, hp, PCB.Fresh, ProcessSpec.create, droneSetCommands, pcbCreate]
  refine (booted_foldl (B := BootedPages) (n := w.length) (fun k i spec hpids hi hn h => ?_) w 0
    (clearedKernel k₀ cfg w) hpids rfl (Nat.zero_add _) ⟨?_, rfl, fun p hp _ page _ => ?_⟩).mapping
  · exact bootedPages_bootProcess h hpids hi (by omega) spec
  · exact mapping_memInit k₀.mem hpids (fun p hp => (hfresh p hp).1) fun p hp => (hfresh p hp).2
  · rw [(hfresh p hp).1]

/-! ## Whole runs -/

theorem PageInvariant.machineRun {I : Kernel → Prop} (hI : PageInvariant I) {k : Kernel}
    (h : PageInvariant.Holds I k) (n : ℕ) : PageInvariant.Holds I (machineRun k n).1 := by
  induction n with
  | zero => exact h
  | succ n ih =>
    rw [machineRun_succ]
    exact hI.holds_machineStep ih

theorem pidTable_kernelInit (k₀ : Kernel) (cfg : KernelConfig) {w : List ProcessSpec}
    (hw : ValidWorkload w) :
    PidTable (kernelInit k₀ cfg w).procs (kernelInit k₀ cfg w).procCount :=
  ⟨(tables_kernelInit k₀ cfg hw).pids, fun p hp => ((tables_kernelInit k₀ cfg hw).pid_range p hp).1⟩

theorem frameTable_machineRun (k₀ : Kernel) (cfg : KernelConfig) {w : List ProcessSpec}
    (hw : ValidWorkload w) (n : ℕ) : FrameTable (machineRun (kernelInit k₀ cfg w) n).1 :=
  (pageInvariant_frameTable.machineRun ⟨pidTable_kernelInit k₀ cfg hw, frameTable_kernelInit k₀ cfg hw⟩
    n).holds

theorem mapping_machineRun (k₀ : Kernel) (cfg : KernelConfig) {w : List ProcessSpec}
    (hw : ValidWorkload w) (hfit : 2 * w.length ≤ frameCount) (n : ℕ) :
    let k := (machineRun (kernelInit k₀ cfg w) n).1
    PidTable k.procs k.procCount ∧ Mapping k.mem k.procs k.procCount := by
  have h := pageInvariant_mapping.machineRun
    ⟨pidTable_kernelInit k₀ cfg hw, mapping_kernelInit k₀ cfg hw hfit⟩ n
  exact ⟨h.pids, h.holds⟩

/-- In every state of a run whose boot pages fit into the frames, no two virtual addresses that are
not negative have the same physical one, be they of one process or of two. A frame belongs to the
page that is mapped to it, and the counts are right. -/
theorem isolated_machineRun (k₀ : Kernel) (cfg : KernelConfig) {w : List ProcessSpec}
    (hw : ValidWorkload w) (hfit : 2 * w.length ≤ frameCount) (n : ℕ) :
    let k := (machineRun (kernelInit k₀ cfg w) n).1
    (∀ p < k.procCount, ∀ q < k.procCount, ∀ a b : ℤ, 0 ≤ a → 0 ≤ b → (p, a) ≠ (q, b) →
      (memAccess k.mem (k.procs p) a).ret ≠ -1 → (memAccess k.mem (k.procs q) b).ret ≠ -1 →
      (memAccess k.mem (k.procs p) a).ret ≠ (memAccess k.mem (k.procs q) b).ret) ∧
      (∀ f ∈ frameIndices, ∀ p < k.procCount, ∀ page ∈ pageIndices,
        (k.mem.frames f = (k.procs p).pid ∧ k.mem.framePages f = page) ↔
          (k.procs p).pageTable page = f) ∧
      (∀ p < k.procCount, (k.procs p).pagesUsed = memGetPageCount (k.procs p)) ∧
      k.mem.freeFrameCount = frameIndices.countP fun f => k.mem.frames f = -1 := by
  obtain ⟨hpids, h⟩ := mapping_machineRun k₀ cfg hw hfit n
  refine ⟨fun p hp q hq a b ha hb hne hpa _ he => hne ?_, h.agree, h.used, h.free⟩
  obtain ⟨rfl, rfl⟩ := h.translate_injective hpids hp hq ha hb hpa he
  rfl

/-- The drones, after some page faults. -/
theorem isolated_machineRun_drones :
    let k := (machineRun (kernelInit .zero ⟨.rr, 100, false, false⟩ droneWorkload) 500).1
    (∀ p < k.procCount, ∀ q < k.procCount, ∀ a b : ℤ, 0 ≤ a → 0 ≤ b → (p, a) ≠ (q, b) →
      (memAccess k.mem (k.procs p) a).ret ≠ -1 → (memAccess k.mem (k.procs q) b).ret ≠ -1 →
      (memAccess k.mem (k.procs p) a).ret ≠ (memAccess k.mem (k.procs q) b).ret) ∧
      (∀ f ∈ frameIndices, ∀ p < k.procCount, ∀ page ∈ pageIndices,
        (k.mem.frames f = (k.procs p).pid ∧ k.mem.framePages f = page) ↔
          (k.procs p).pageTable page = f) ∧
      (∀ p < k.procCount, (k.procs p).pagesUsed = memGetPageCount (k.procs p)) ∧
      k.mem.freeFrameCount = frameIndices.countP fun f => k.mem.frames f = -1 :=
  isolated_machineRun .zero ⟨.rr, 100, false, false⟩ valid_droneWorkload (by decide) 500

/-! ## The shutdown -/

/-- The frames after the processes of `l` have given theirs back. -/
structure GivenBack (m m' : PhysicalMemory) (procs : ℕ → PCB) (l : List ℕ) : Prop where
  frames : ∀ f, m'.frames f = m.frames f ∨ m'.frames f = -1
  gone : ∀ p ∈ l, ∀ f, m'.frames f ≠ (procs p).pid
  free : m'.freeFrameCount = frameIndices.countP fun f => m'.frames f = -1

theorem givenBack_foldl {procs : ℕ → PCB} : ∀ (l : List ℕ) (m : PhysicalMemory),
    (∀ p ∈ l, (procs p).pid ≠ -1) →
      (m.freeFrameCount = frameIndices.countP fun f => m.frames f = -1) →
      GivenBack m (l.foldl (fun m p => (memFreeProcess m (procs p)).1) m) procs l
  | [], m, _, hfree => ⟨fun _ => Or.inl rfl, fun _ hp => absurd hp List.not_mem_nil, hfree⟩
  | p :: l, m, htaken, hfree => by
    have hp := htaken p List.mem_cons_self
    have hfreed : (memFreeProcess m (procs p)).1.freeFrameCount =
        frameIndices.countP fun f => (memFreeProcess m (procs p)).1.frames f = -1 := by
      change m.freeFrameCount + _ = ((frameIndices.countP fun f =>
        (if m.frames f = (procs p).pid then -1 else m.frames f) = -1 : ℕ) : ℤ)
      rw [hfree, countP_freed _ hp]
      push_cast
      rfl
    have ih := givenBack_foldl l (memFreeProcess m (procs p)).1
      (fun q hq => htaken q (List.mem_cons_of_mem p hq)) hfreed
    have hframes : ∀ f, (memFreeProcess m (procs p)).1.frames f =
        if m.frames f = (procs p).pid then -1 else m.frames f := fun _ => rfl
    rw [List.foldl_cons]
    refine ⟨fun f => ?_, fun q hq f => ?_, ih.free⟩
    · refine (ih.frames f).elim (fun he => ?_) Or.inr
      rw [he, hframes]
      split_ifs
      · exact Or.inr rfl
      · exact Or.inl rfl
    · rcases List.mem_cons.mp hq with rfl | hq
      · rcases ih.frames f with he | he
        · rw [he, hframes]
          split_ifs with hown
          · exact hp.symm
          · exact hown
        · rw [he]
          exact hp.symm
      · exact ih.gone q hq f

/-- Whenever a run is stopped, `kernel_shutdown` leaves every frame free. -/
theorem kernelShutdown_frees (k₀ : Kernel) (cfg : KernelConfig) {w : List ProcessSpec}
    (hw : ValidWorkload w) (n : ℕ) (s : Statics) :
    let m := (kernelShutdown { s with kernel := (machineRun (kernelInit k₀ cfg w) n).1 }).kernel.mem
    (∀ f ∈ frameIndices, m.frames f = -1) ∧ m.freeFrameCount = frameCount := by
  intro m
  have htab := frameTable_machineRun k₀ cfg hw n
  have hrange := (tables_machineRun k₀ cfg hw n).tables.pid_range
  set k := (machineRun (kernelInit k₀ cfg w) n).1
  have htaken : ∀ p ∈ List.range k.procCount, (k.procs p).pid ≠ -1 := fun p hp => by
    have := (hrange p (List.mem_range.mp hp)).1
    omega
  have hback : GivenBack _ m k.procs _ := givenBack_foldl _ (memSetTick k.mem k.currentTick) htaken htab.free
  have hall : ∀ f ∈ frameIndices, m.frames f = -1 := by
    intro f hf
    refine (hback.frames f).elim (fun he => ?_) id
    refine (htab.owner f hf).elim (fun hfree => he.trans hfree) fun ⟨p, hp, hown⟩ => ?_
    exact absurd (he.trans hown) (hback.gone p (List.mem_range.mpr hp) f)
  refine ⟨hall, ?_⟩
  rw [hback.free, List.countP_eq_length.mpr fun f hf => decide_eq_true (hall f hf)]
  decide

/-- The drones, stopped after a hundred parts. -/
theorem kernelShutdown_frees_drones :
    let s : Statics := ⟨.zero, false, false, ⟨true, false, 0⟩, ⟨0, 0⟩⟩
    let m := (kernelShutdown { s with kernel :=
      (machineRun (kernelInit .zero ⟨.mlfq, 50, true, true⟩ droneWorkload) 100).1 }).kernel.mem
    (∀ f ∈ frameIndices, m.frames f = -1) ∧ m.freeFrameCount = frameCount :=
  kernelShutdown_frees .zero ⟨.mlfq, 50, true, true⟩ valid_droneWorkload 100 _

end FleetOS
