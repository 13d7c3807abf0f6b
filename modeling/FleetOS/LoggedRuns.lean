import FleetOS.LogLines
import FleetOS.PageFaults
import FleetOS.TerminatedProcesses

/-!
# The log of a run

Every line that a simulation prints is the text of a JSON object and is logged at the tick of the
kernel (`lines_partLog`), so the ticks of the lines never go back. What the lines show of the state
are pids and tids, which a part of a tick leaves as they are (`SameIds`), the names of the processes,
counters, and the snapshots.
-/

namespace FleetOS

open Json Printing TwoRuns ResourceGraph

/-! ## The resources -/

theorem validPid_of_scanned {rid p : ℤ} : ∀ (l : List ℤ) {g : ResourceGraph},
    p ∈ (scanWaiters rid g l).woken → validPid p
  | [], _, h => absurd h List.not_mem_nil
  | w :: l, g, h => by
    unfold scanWaiters at h
    dsimp only at h
    split_ifs at h with _ hact
    · exact validPid_of_scanned l h
    · exact validPid_of_scanned l h
    · rcases List.mem_cons.mp h with rfl | h
      · exact validPid_of_isActive (by simpa using hact)
      · exact validPid_of_scanned l h
    · exact validPid_of_scanned l h

theorem valid_of_wakeGrants {x : ℤ × ℤ} : ∀ {rids : List ℤ} {g : ResourceGraph},
    (∀ rid ∈ rids, validRid rid) → x ∈ wakeGrants rids g → validPid x.1 ∧ validRid x.2
  | [], _, _, h => absurd h List.not_mem_nil
  | rid :: rids, g, hr, h => by
    rcases List.mem_append.mp h with h | h
    · obtain ⟨p, hp, rfl⟩ := List.mem_map.mp h
      have hrid := hr rid List.mem_cons_self
      rw [deadlockWakeWaiters, if_neg (not_not.mpr hrid)] at hp
      exact ⟨validPid_of_scanned _ hp, hrid⟩
    · exact valid_of_wakeGrants (fun r hm => hr r (List.mem_cons_of_mem rid hm)) h

/-- In a run each resource is free or held by one process. -/
theorem units_machineRun (k₀ : Kernel) (cfg : KernelConfig) {w : List ProcessSpec}
    (hw : ValidWorkload w) (n : ℕ) : (machineRun (kernelInit k₀ cfg w) n).1.graph.Units := by
  induction n with
  | zero =>
    obtain ⟨k₁, hl, -, -, -, -, hg⟩ := loaded_kernelInit k₀ cfg w
    have hgraph : (kernelInit k₀ cfg w).graph =
        { deadlockInit k₀.graph with priority := (kernelInit k₀ cfg w).graph.priority } := by
      conv_lhs => rw [hl]
      rw [← hg]
    have h : (kernelInit k₀ cfg w).graph.Units := by
      rw [hgraph]
      exact (units_deadlockInit k₀.graph).congr rfl rfl rfl rfl
    exact h
  | succ n ih =>
    have ht := tables_machineRun k₀ cfg hw n
    rw [machineRun_succ]
    cases hf : faultedAt (machineRun (kernelInit k₀ cfg w) n) with
    | some p =>
      rw [(faulted_machineStep ht hf).graph]
      exact ih.resolve _
    | none =>
      rw [graph_machineStep ht hf]
      split
      · exact ih
      · exact ih.deadlockRequest _ _

/-! ## Pids, tids and names -/

/-- The ticks, the ids and the records stay as they are. -/
structure SameIds (k k' : Kernel) : Prop where
  currentTick : k'.currentTick = k.currentTick
  threadCount : k'.threadCount = k.threadCount
  procCount : k'.procCount = k.procCount
  tid : ∀ t, (k'.tcb t).tid = (k.tcb t).tid
  ownerPid : ∀ t, (k'.tcb t).ownerPid = (k.tcb t).ownerPid
  record : ∀ p, (k'.procs p).pid = (k.procs p).pid ∧ (k'.procs p).name = (k.procs p).name

/-- What the lines show of the tables is short and plain. -/
structure Loggable (k : Kernel) (tick : ℤ) : Prop where
  now : k.currentTick = tick
  tid : ∀ t < k.threadCount, 0 ≤ (k.tcb t).tid ∧ (k.tcb t).tid < maxThreads
  owner : ∀ t < k.threadCount, validPid (k.tcb t).ownerPid
  pid : ∀ p < k.procCount, validPid (k.procs p).pid
  name : ∀ p < k.procCount, Plain (k.procs p).name ∧ (k.procs p).name.length ≤ 31

section ids

variable {k k' k'' : Kernel} {tick : ℤ} {t : ℕ}

namespace SameIds

theorem refl (k : Kernel) : SameIds k k :=
  ⟨rfl, rfl, rfl, fun _ => rfl, fun _ => rfl, fun _ => ⟨rfl, rfl⟩⟩

theorem trans (h : SameIds k k') (h' : SameIds k' k'') : SameIds k k'' :=
  ⟨h'.currentTick.trans h.currentTick, h'.threadCount.trans h.threadCount,
    h'.procCount.trans h.procCount, fun t => (h'.tid t).trans (h.tid t),
    fun t => (h'.ownerPid t).trans (h.ownerPid t),
    fun p => ⟨(h'.record p).1.trans (h.record p).1, (h'.record p).2.trans (h.record p).2⟩⟩

theorem of_tables (hc : k'.currentTick = k.currentTick) (ht : k'.threadCount = k.threadCount)
    (hn : k'.procCount = k.procCount) (hs : k'.sched.tcb = k.sched.tcb) (hp : k'.procs = k.procs) :
    SameIds k k' :=
  ⟨hc, ht, hn, fun t => congrArg TCB.tid (congrFun hs t), fun t => congrArg TCB.ownerPid (congrFun hs t),
    fun p => by simp [hp]⟩

theorem foldl {α : Type*} {f : Kernel → α → Kernel} (hf : ∀ k a, SameIds k (f k a)) :
    ∀ (l : List α) (k : Kernel), SameIds k (l.foldl f k)
  | [], k => refl k
  | a :: l, k => (hf k a).trans (foldl hf l (f k a))

theorem setTcb (k : Kernel) (t : ℕ) {f : TCB → TCB}
    (hf : ∀ c, (f c).tid = c.tid ∧ (f c).ownerPid = c.ownerPid) : SameIds k (k.setTcb t f) := by
  have htcb : ∀ u, ((k.setTcb t f).tcb u).tid = (k.tcb u).tid ∧
      ((k.setTcb t f).tcb u).ownerPid = (k.tcb u).ownerPid := by
    intro u
    rw [Kernel.tcb, Kernel.setTcb, Scheduler.setTcb_tcb]
    split_ifs with hu
    · exact hu ▸ hf _
    · exact ⟨rfl, rfl⟩
  exact ⟨rfl, rfl, rfl, fun u => (htcb u).1, fun u => (htcb u).2, fun _ => ⟨rfl, rfl⟩⟩

theorem setProc (k : Kernel) (p : ℕ) {f : PCB → PCB}
    (hf : (f (k.procs p)).pid = (k.procs p).pid ∧ (f (k.procs p)).name = (k.procs p).name) :
    SameIds k (k.setProc p f) := by
  refine ⟨rfl, rfl, rfl, fun _ => rfl, fun _ => rfl, fun q => ?_⟩
  by_cases hq : q = p
  · rw [hq, setProc_self]
    exact hf
  · rw [setProc_of_ne k hq]
    exact ⟨rfl, rfl⟩

end SameIds

/-- Together with the thread table. -/
theorem Steady.sameIds (h : Steady k k') (ht : ∀ t, (k'.tcb t).tid = (k.tcb t).tid ∧
    (k'.tcb t).ownerPid = (k.tcb t).ownerPid) : SameIds k k' := by
  refine ⟨h.currentTick, h.threadCount, h.procCount, fun t => (ht t).1, fun t => (ht t).2, fun p => ?_⟩
  rw [h.procs p]
  exact ⟨rfl, rfl⟩

theorem sameIds_unblockThread (k : Kernel) (t : ℕ) : SameIds k (unblockThread k t) := by
  refine (steady_unblockThread k t).sameIds fun u => ?_
  obtain ⟨hother, hself⟩ := tcb_schedulerAdd (k.sched.setTcb t threadUnblock) t
  have hblocked : ((k.sched.setTcb t threadUnblock).tcb u).tid = (k.tcb u).tid ∧
      ((k.sched.setTcb t threadUnblock).tcb u).ownerPid = (k.tcb u).ownerPid := by
    rw [Scheduler.setTcb_tcb]
    split_ifs with hu
    · subst hu
      unfold threadUnblock
      split_ifs <;> exact ⟨rfl, rfl⟩
    · exact ⟨rfl, rfl⟩
  simp only [Kernel.tcb, sched_unblockThread, schedulerUnblock]
  by_cases hu : u = t
  · subst hu
    rcases hself with hs | ⟨l, hs⟩ <;>
    · rw [hs]
      exact hblocked
  · rw [hother u hu]
    exact hblocked

theorem Loggable.same (h : Loggable k tick) (hs : SameIds k k') : Loggable k' tick := by
  refine ⟨hs.currentTick.trans h.now, fun t ht => ?_, fun t ht => ?_, fun p hp => ?_, fun p hp => ?_⟩
  · rw [hs.tid]
    exact h.tid t (hs.threadCount ▸ ht)
  · rw [hs.ownerPid]
    exact h.owner t (hs.threadCount ▸ ht)
  · rw [(hs.record p).1]
    exact h.pid p (hs.procCount ▸ hp)
  · rw [(hs.record p).2]
    exact h.name p (hs.procCount ▸ hp)

end ids

/-! ## Blocking and waking -/

namespace Loggable

variable {k : Kernel} {tick : ℤ} {t : ℕ}

theorem isLine (h : Loggable k tick) {module msg : String} {level : LogLevel} {data : CString}
    (hmodule : Plain module.toList) (hmsg : Plain msg.toList) (hdata : ∃ v, data = render v) :
    IsLine tick (loggerLog k.currentTick module level msg data) := by
  rw [h.now]
  exact isLine_of_value hmodule hmsg hdata

theorem announced (h : Loggable k tick) (hd : k.sched.Disciplined k.threadCount)
    (hq : IsInt k.sched.quantumRemaining) : Announced k.sched k.threadCount :=
  ⟨h.tid, hd.current_lt, hq⟩

theorem length_tid (h : Loggable k tick) (ht : t < k.threadCount) : (decimal (k.tcb t).tid).length ≤ 2 := by
  have hm : maxThreads = 32 := rfl
  obtain ⟨h0, hlt⟩ := h.tid t ht
  exact length_decimal_two h0 (by omega)

theorem fieldsWithin_thread (h : Loggable k tick) (ht : t < k.threadCount) {l : List CString} {n : ℕ}
    (hl : FieldsWithin l n) :
    FieldsWithin (threadFields (k.tcb t) ++ l) (3 + 3 + 2 + 1 + (9 + 3 + 2 + 1 + n)) :=
  (hl.int "owner_pid" (by decide) (length_pid (h.owner t ht))).int "tid" (by decide) (h.length_tid ht)

theorem lines_ownerLog (h : Loggable k tick) (t : ℕ) {lines : PCB → List CString}
    (hlines : ∀ c : PCB, validPid c.pid → Lines tick (lines c)) : Lines tick (ownerLog k t lines) := by
  unfold ownerLog
  split
  · exact lines_nil
  · rename_i p hp
    refine hlines _ ?_
    rw [(steady_syncPcb k p).procs p]
    exact h.pid p (findProc_eq_some hp).1

theorem lines_unblockThread (h : Loggable k tick) (ht : t < k.threadCount) :
    Lines tick (unblockThreadLog k t) := by
  set k₁ : Kernel := { k.setTcb t threadUnblock with
    sched := schedulerUnblock (k.setTcb t threadUnblock).sched t } with hk₁
  have h₁ : Loggable k₁ tick := by
    have hs := sameIds_unblockThread k t
    have htcb : ∀ u, k₁.tcb u = (unblockThread k t).tcb u := fun u => by
      simp only [Kernel.tcb, sched_unblockThread]
      rfl
    exact h.same ⟨rfl, rfl, rfl, fun u => by rw [htcb, hs.tid], fun u => by rw [htcb, hs.ownerPid],
      fun _ => ⟨rfl, rfl⟩⟩
  have hfields := h₁.fieldsWithin_thread ht fieldsWithin_nil
  rw [List.append_nil] at hfields
  have hthread : IsLine tick (loggerLog k₁.currentTick "THREAD" .info "Thread unblocked"
      (dataObject 128 (threadFields (k₁.tcb t)))) :=
    h₁.isLine (by decide) (by decide) (dataObject_eq hfields (by decide) (by decide))
  refine Lines.cons hthread (h₁.lines_ownerLog t fun c hc => ?_)
  split_ifs
  · exact lines_singleton (h₁.isLine (by decide) (by decide)
      (dataObject_eq (fieldsWithin_nil.int "pid" (by decide) (length_pid hc)) (by decide) (by decide)))
  · exact lines_nil

/-- A loop over the threads. -/
theorem lines_threads (h : Loggable k tick) {step : Kernel → ℕ → Kernel} {out : Kernel → ℕ → List CString}
    (hstep : ∀ k t, SameIds k (step k t))
    (hout : ∀ k t, Loggable k tick → t < k.threadCount → Lines tick (out k t)) :
    Lines tick (foldOut step out k k.threads) := by
  refine lines_foldOut (I := fun k' => Loggable k' tick ∧ k'.threadCount = k.threadCount) _ ⟨h, rfl⟩
    fun k' t ht hk' => ⟨⟨hk'.1.same (hstep k' t), (hstep k' t).threadCount.trans hk'.2⟩, ?_⟩
  exact hout k' t hk'.1 (hk'.2.symm ▸ mem_threads.mp ht)

theorem lines_unblockIf (h : Loggable k tick) (ht : t < k.threadCount) (pid : ℤ) (reason : BlockReason) :
    Lines tick (unblockIfLog pid reason k t) := by
  unfold unblockIfLog
  split_ifs
  · exact h.lines_unblockThread ht
  · exact lines_nil

theorem lines_unblockOwned (h : Loggable k tick) (pid : ℤ) (reason : BlockReason) :
    Lines tick (unblockOwnedLog k pid reason) := by
  refine h.lines_threads (fun k t => ?_) fun k t hk ht => hk.lines_unblockIf ht pid reason
  unfold unblockIf
  split_ifs
  · exact sameIds_unblockThread k t
  · exact .refl k

theorem lines_wakeThreads (h : Loggable k tick) (ids : List ℤ) : Lines tick (wakeThreadsLog k ids) := by
  refine lines_foldOut (I := fun k => Loggable k tick) ids h fun k id _ hk => ?_
  unfold wakeId wakeIdLog
  split
  · exact ⟨hk, lines_nil⟩
  · split_ifs
    · exact ⟨hk.same (sameIds_unblockThread k _), hk.lines_unblockThread (findThread_eq_some ‹_›).1⟩
    · exact ⟨hk, lines_nil⟩

end Loggable

/-! ## The end of a process -/

section cleanup

variable {k : Kernel} {tick : ℤ} {p : ℕ} {pid : ℤ}

theorem sameIds_wakeGranted (pid : ℤ) (k : Kernel) (t : ℕ) : SameIds k (wakeGranted pid k t) := by
  unfold wakeGranted
  split_ifs
  · have hphase : ∀ k : Kernel, SameIds k { k with
        deadlockPhase := Function.update k.deadlockPhase pid (k.deadlockPhase pid + 1) } :=
      fun k => .of_tables rfl rfl rfl rfl rfl
    exact ((sameIds_unblockThread k t).trans (hphase _)).trans (.setTcb _ t fun _ => ⟨rfl, rfl⟩)
  · exact .refl k

theorem sameIds_applyWoken (k : Kernel) (r : ResourceGraph × List ℤ) : SameIds k (applyWoken k r) := by
  have hg : SameIds k { k with graph := r.1 } := .of_tables rfl rfl rfl rfl rfl
  exact hg.trans (.foldl (fun k pid => .foldl (sameIds_wakeGranted pid) k.threads k) r.2 _)

theorem sameIds_takeOut (k : Kernel) (pid : ℤ) (release : Bool) : SameIds k (takeOut k pid release) := by
  have hw : SameIds k (withdraw k pid) := .of_tables rfl rfl rfl rfl rfl
  unfold takeOut
  split_ifs
  · exact (hw.trans (sameIds_applyWoken _ _)).trans (.of_tables rfl rfl rfl rfl rfl)
  · exact hw

theorem mem_takeOut (k : Kernel) (pid : ℤ) (release : Bool) : (takeOut k pid release).mem = k.mem := by
  unfold takeOut
  split_ifs
  · exact (steady_applyWoken (withdraw k pid) _).mem
  · rfl

theorem sameIds_terminate (k : Kernel) (p : ℕ) : SameIds k (terminate k p) := by
  refine ⟨rfl, rfl, rfl, fun _ => rfl, fun _ => rfl, fun q => ?_⟩
  by_cases hq : q = p
  · have hname := congrArg PCB.name (finishes_terminate k p).self
    rw [hq]
    exact ⟨(terminate_procs_self k p).1, hname⟩
  · rw [terminate_procs_of_ne k hq]
    exact ⟨rfl, rfl⟩

theorem sameIds_endThread (pid : ℤ) (k : Kernel) (t : ℕ) : SameIds k (endThread pid k t) := by
  unfold endThread
  split_ifs
  · exact .setTcb k t fun _ => ⟨rfl, rfl⟩
  · exact .refl k

namespace Loggable

theorem lines_applyWoken (h : Loggable k tick) {served : List (ℤ × ℤ)}
    (hs : ∀ x ∈ served, validPid x.1 ∧ validRid x.2) :
    Lines tick (applyWokenLog ⟨tick, tick⟩ k served) := by
  refine lines_foldOut (I := fun k => Loggable k tick) served h fun k x hx hk => ⟨?_, ?_⟩
  · exact hk.same (.foldl (sameIds_wakeGranted x.1) k.threads k)
  · obtain ⟨hpid, hrid⟩ := hs x hx
    exact .cons (isLine_resourceLine hpid hrid (by decide)) (hk.lines_threads (sameIds_wakeGranted x.1)
      fun k t hk ht => hk.lines_unblockIf ht x.1 .resourceWait)

theorem lines_handOver (h : Loggable k tick) (pid : ℤ) : Lines tick (handOverLog ⟨tick, tick⟩ k pid) := by
  have hg : Loggable { k with graph := (wakeAllWaiters (deadlockCleanupProcess k.graph pid)).1 } tick :=
    h.same (.of_tables rfl rfl rfl rfl rfl)
  exact (lines_deadlockCleanupProcess k.graph pid).append
    (hg.lines_applyWoken fun x hx => valid_of_wakeGrants (fun r hr => mem_resourceIndices.mp hr) hx)

theorem lines_endThreads (h : Loggable k tick) (hpid : validPid pid) : Lines tick (endThreadsLog k pid) := by
  refine h.lines_threads (sameIds_endThread pid) fun k t hk ht => ?_
  unfold endThreadLog
  split_ifs
  · have hfields := ((fieldsWithin_nil.text "state" (by decide) (v := "T_DONE".toList) (m := 6) (by decide)
      (by decide)).int "owner_pid" (by decide) (length_pid hpid)).int "tid" (by decide) (hk.length_tid ht)
    exact lines_singleton (hk.isLine (by decide) (by decide)
      (dataObject_eq hfields (by decide) (by decide)))
  · exact lines_nil

/-- A process ends, for one of the reasons that the kernel gives. -/
theorem lines_cleanupProcess (h : Loggable k tick) (hmem : k.mem.currentTick = tick)
    (hb : k.sensorBuf.Inv) (hp : p < k.procCount) {reason : String} (hreason : Plain reason.toList)
    (release : Bool) : Lines tick (cleanupProcessLog ⟨tick, tick⟩ k p reason release) := by
  have hpid := h.pid p hp
  have hout := sameIds_takeOut k (k.procs p).pid release
  have h₁ : Loggable (takeOut k (k.procs p).pid release) tick := h.same hout
  have h₂ := h₁.same (sameIds_terminate _ p)
  have hw : Loggable (withdraw k (k.procs p).pid) tick := h.same (.of_tables rfl rfl rfl rfl rfl)
  have hbuf : (bufferRemovePid k.sensorBuf (k.procs p).pid).MutexFree := (removePid_inv hb _).1.mutexFree
  have hpid₁ : validPid ((takeOut k (k.procs p).pid release).procs p).pid := by
    rw [(hout.record p).1]
    exact hpid
  have hfreed : Lines tick (memFreeProcessLog (takeOut k (k.procs p).pid release).mem
      ((takeOut k (k.procs p).pid release).procs p)) := by
    have hlines := lines_memFreeProcess (m := (takeOut k (k.procs p).pid release).mem) hpid₁
    rw [mem_takeOut] at hlines ⊢
    rwa [hmem] at hlines
  have hname := h₂.name p (by rw [(sameIds_terminate _ p).procCount, hout.procCount]; exact hp)
  have hfields := (fieldsWithin_nil.text "name" (by decide) hname.1 hname.2).int "pid" (by decide)
    (length_pid hpid)
  have hended : IsLine tick (loggerLog (terminate (takeOut k (k.procs p).pid release) p).currentTick
      (if isFault reason then "FAULT" else "KERNEL") (if isFault reason then .critical else .info) reason
      (dataObject 128 [intField "pid" (k.procs p).pid,
        textField "name" ((terminate (takeOut k (k.procs p).pid release) p).procs p).name])) := by
    refine h₂.isLine ?_ hreason (dataObject_eq hfields (by decide) (by decide))
    split_ifs <;> decide
  refine ((((lines_bufferReleaseMutex hbuf _).append ?_).append hfreed).append
    (h₂.lines_endThreads hpid)).append (lines_singleton hended)
  split_ifs
  · exact hw.lines_handOver _
  · exact lines_nil

end Loggable

end cleanup

/-! ## The frames -/

/-- A frame and the number of free frames, as `FrameTable` has them, and the pages in the frames. -/
structure FramesListed (k : Kernel) : Prop where
  table : FrameTable k
  page : ∀ f ∈ frameIndices, -1 ≤ k.mem.framePages f ∧ k.mem.framePages f < maxPages

section frames

variable {k k' : Kernel} {p : ℕ} {page : ℤ}

theorem framePage_update {m : PhysicalMemory} {f : ℤ} (hpage : page ∈ pageIndices)
    (h : ∀ f ∈ frameIndices, -1 ≤ m.framePages f ∧ m.framePages f < maxPages) :
    ∀ g ∈ frameIndices, -1 ≤ Function.update m.framePages f page g ∧
      Function.update m.framePages f page g < maxPages := by
  intro g hg
  rw [Function.update_apply]
  split_ifs
  · obtain ⟨h0, hlt⟩ := mem_pageIndices.mp hpage
    omega
  · exact h g hg

theorem pageInvariant_framesListed : PageInvariant FramesListed where
  same hs h := ⟨h.table.same hs, fun f hf => by rw [hs.framePages]; exact h.page f hf⟩
  resolve {k p} hpids hp page h := by
    refine ⟨pageInvariant_frameTable.resolve hpids hp page h.table, ?_⟩
    unfold Kernel.resolved
    rcases resolvePageFault_cases k.mem k.procs k.procCount p page with
      he | ⟨hpage, -, ⟨f, -, -, he⟩ | ⟨f, -, -, he⟩⟩ <;> rw [he]
    · exact h.page
    · exact framePage_update hpage h.page
    · exact framePage_update hpage h.page
  terminate {k p} hpids hp h := by
    refine ⟨pageInvariant_frameTable.terminate hpids hp h.table, fun f hf => ?_⟩
    change -1 ≤ (if k.mem.frames f = (k.procs p).pid then -1 else k.mem.framePages f) ∧
      (if k.mem.frames f = (k.procs p).pid then -1 else k.mem.framePages f) < _
    split_ifs
    · decide
    · exact h.page f hf

theorem framesListed_bootPage (h : FramesListed k) (hp : p < k.procCount) (htaken : (k.procs p).pid ≠ -1)
    (page : ℤ) : FramesListed (bootPage p k page) := by
  refine ⟨frameTable_bootPage h.table hp htaken, ?_⟩
  unfold bootPage
  rcases memAllocatePage_cases k.mem (k.procs p) page ⟨false, 0, 0, 0⟩ with
    ⟨-, ei, ret, -, he⟩ | ⟨hpage, -, ⟨f, -, -, he⟩ | ⟨-, f, -, he⟩⟩ <;> rw [he]
  · exact h.page
  · exact framePage_update hpage h.page
  · exact framePage_update hpage h.page

theorem FramesListed.short (h : FramesListed k) (hpid : ∀ p < k.procCount, validPid (k.procs p).pid) :
    FramesShort k.mem := by
  have hn : frameCount = 16 := rfl
  have hm : maxPages = 16 := rfl
  refine ⟨?_, fun f hf => ⟨?_, ?_⟩⟩
  · have hle : frameIndices.countP (fun f => k.mem.frames f = -1) ≤ frameCount :=
      List.countP_le_length.trans (by decide)
    rw [h.table.free]
    constructor <;> omega
  · rcases h.table.owner f hf with he | ⟨p, hp, he⟩
    · rw [he]
      decide
    · obtain ⟨h0, hlt⟩ : validPid (k.procs p).pid := hpid p hp
      have hp : maxProcs = 16 := rfl
      rw [he]
      constructor <;> omega
  · have := h.page f hf
    constructor <;> omega

end frames

/-! ## Pending events -/

section events

variable {k : Kernel} {tick b : ℤ}

theorem sameIds_unblockOwned (k : Kernel) (pid : ℤ) (reason : BlockReason) :
    SameIds k (unblockOwned k pid reason) := by
  refine .foldl (fun k t => ?_) k.threads k
  split_ifs
  · exact sameIds_unblockThread k t
  · exact .refl k

theorem sameIds_completeIoEvent (k : Kernel) (i : ℕ) : SameIds k (completeIoEvent k i) := by
  unfold completeIoEvent
  dsimp only
  split_ifs
  · exact .refl k
  · cases k.findProc (k.pending i).pid with
    | none => exact .of_tables rfl rfl rfl rfl rfl
    | some p =>
      have hfs : ∀ fs, SameIds k { k with fs := fs } := fun _ => .of_tables rfl rfl rfl rfl rfl
      exact ((hfs _).trans (sameIds_unblockOwned _ _ _)).trans (.of_tables rfl rfl rfl rfl rfl)

theorem sameIds_resolved (k : Kernel) (p : ℕ) (page : ℤ) : SameIds k (k.resolved p page) :=
  ⟨rfl, rfl, rfl, fun _ => rfl, fun _ => rfl, fun q => ⟨resolvePageFault_pid _ _ _ _ _ q,
    resolvePageFault_unpaged (g := PCB.name) (fun _ _ _ => rfl) _ _ _ _ _ q⟩⟩

theorem sameIds_completePageFault (k : Kernel) (i : ℕ) : SameIds k (completePageFault k i) := by
  unfold completePageFault
  dsimp only
  split_ifs
  · exact .refl k
  · cases k.findProc (k.pending i).pid with
    | none => exact .of_tables rfl rfl rfl rfl rfl
    | some p =>
      exact ((sameIds_resolved k p _).trans (sameIds_unblockOwned _ _ _)).trans (.of_tables rfl rfl rfl rfl rfl)

theorem memTick_resolvePageFault (m : PhysicalMemory) (procs : ℕ → PCB) (n p : ℕ) (page : ℤ) :
    (resolvePageFault m procs n p page).1.currentTick = m.currentTick := by
  rcases resolvePageFault_cases m procs n p page with
    he | ⟨-, -, ⟨f, -, -, he⟩ | ⟨f, -, -, he⟩⟩ <;> rw [he] <;> rfl

theorem memTick_completePageFault (k : Kernel) (i : ℕ) :
    (completePageFault k i).mem.currentTick = k.mem.currentTick := by
  unfold completePageFault
  dsimp only
  split_ifs
  · rfl
  · cases k.findProc (k.pending i).pid with
    | none => rfl
    | some p =>
      have hw := (steady_unblockOwned (k.resolved p (k.pending i).page) (k.procs p).pid .pageFault).mem
      exact (congrArg PhysicalMemory.currentTick hw).trans
        (memTick_resolvePageFault k.mem k.procs k.procCount p (k.pending i).page)

namespace Loggable

theorem lines_completeIoEvent (h : Loggable k tick) (hl : Logged k b) (i : ℕ) :
    Lines tick (completeIoEventLog k i) := by
  unfold completeIoEventLog
  split_ifs with hdue
  · exact lines_nil
  rw [Bool.not_eq_true', Bool.not_eq_false] at hdue
  have hpath := hl.events i (of_decide_eq_true hdue).2.1
  have hlen := hpath.length_le
  obtain ⟨pid, seq, -, -, hpath⟩ := hpath
  dsimp only
  split
  · exact lines_nil
  · rename_i p hp
    obtain ⟨hp, hpid⟩ := findProc_eq_some hp
    have hfields := (fieldsWithin_nil.text "path" (by decide) (hpath ▸ plain_logPath pid seq) hlen).int
      "pid" (by decide) (length_pid (hpid ▸ h.pid p hp))
    have hfs : ∀ fs, Loggable { k with fs := fs } tick := fun _ => h.same (.of_tables rfl rfl rfl rfl rfl)
    exact .cons (h.isLine (by decide) (by decide) (dataObject_eq hfields (by decide) (by decide)))
      ((hfs _).lines_unblockOwned _ _)

theorem lines_completeIoEvents (h : Loggable k tick) (hl : Logged k b) (l : List ℕ) :
    Lines tick (foldOut completeIoEvent completeIoEventLog k l) :=
  lines_foldOut (I := fun k => Loggable k tick ∧ Logged k b) l ⟨h, hl⟩ fun k i _ hk =>
    ⟨⟨hk.1.same (sameIds_completeIoEvent k i), hk.2.completeIoEvent i⟩, hk.1.lines_completeIoEvent hk.2 i⟩

theorem lines_completePageFault (h : Loggable k tick) (hf : FramesListed k) (hmem : k.mem.currentTick = tick)
    (i : ℕ) : Lines tick (completePageFaultLog k i) := by
  unfold completePageFaultLog
  split_ifs
  · exact lines_nil
  dsimp only
  split
  · exact lines_nil
  · rename_i p hp
    have hp := (findProc_eq_some hp).1
    have hpages := lines_memAllocatePage (hf.short h.pid) (h.pid p hp) (k.pending i).page
    rw [hmem] at hpages
    have hresolved : IsLine tick (loggerLog k.currentTick "MEM" .info "Page fault resolved" []) := by
      rw [h.now]
      exact isLine_nil (by decide) (by decide)
    exact (hpages.append (lines_singleton hresolved)).append
      ((h.same (sameIds_resolved k p _)).lines_unblockOwned _ _)

theorem lines_completePageFaults (h : Loggable k tick) (hf : PageInvariant.Holds FramesListed k)
    (hmem : k.mem.currentTick = tick) (l : List ℕ) :
    Lines tick (foldOut completePageFault completePageFaultLog k l) :=
  lines_foldOut (I := fun k => Loggable k tick ∧ PageInvariant.Holds FramesListed k ∧
      k.mem.currentTick = tick) l ⟨h, hf, hmem⟩ fun k i _ hk =>
    ⟨⟨hk.1.same (sameIds_completePageFault k i), pageInvariant_framesListed.completePageFault hk.2.1 i,
      (memTick_completePageFault k i).trans hk.2.2⟩, hk.1.lines_completePageFault hk.2.1.holds hk.2.2 i⟩

end Loggable

end events

/-! ## Commands -/

/-- What holds of a state in which a part of a tick prints. -/
structure Reporting (k : Kernel) (tick : ℤ) : Prop extends Loggable k tick where
  clock : 0 ≤ tick ∧ tick ≤ lastTick
  memTick : k.mem.currentTick = tick
  disciplined : k.sched.Disciplined k.threadCount
  quantum : IsInt k.sched.quantumRemaining ∧ IsInt (k.sched.quantumRemaining - 1)
  boosts : IsInt (k.sched.priorityBoostCount + 1)
  buf : k.sensorBuf.Inv
  item : ∀ i < ringBufferSize, IsInt (k.sensorBuf.buffer i)
  available : ∀ r, validRid r → IsInt (k.graph.available r)
  pages : PageInvariant.Holds FramesListed k
  files : Logged k (2 ^ 30)

section commands

variable {k : Kernel} {tick : ℤ} {t : ℕ}

/-- The thread that has the processor blocks. -/
theorem Loggable.lines_blockThread (h : Loggable k tick) (hd : k.sched.Disciplined k.threadCount)
    (hq : IsInt k.sched.quantumRemaining) (hcur : k.sched.currentThread = some t)
    (reason : BlockReason) : Lines tick (blockThreadLog k t reason) := by
  have ht : t < k.threadCount := hd.current_lt t hcur
  have hf := (Scheduler.frame_schedulerBlock hd hcur reason rfl).1
  set k₁ := k.setTcb t fun c => threadBlock c reason with hk₁
  have hblock : SameIds k k₁ := .setTcb k t fun _ => ⟨rfl, rfl⟩
  have h₁ : Loggable k₁ tick := h.same hblock
  have hann : Announced k₁.sched k.threadCount := ⟨h₁.tid, hd.current_lt, hq⟩
  set k₂ : Kernel := { k₁ with sched := schedulerBlock k₁.sched t } with hk₂
  have h₂ : Loggable k₂ tick :=
    h.same ⟨rfl, rfl, rfl, hf.tid, hf.ownerPid, fun _ => ⟨rfl, rfl⟩⟩
  have hlog : blockThreadLog k t reason = if (k.tcb t).state = .blocked then [] else
      schedulerBlockLog k₁.sched t k₁.currentTick ++
        [loggerLog k₂.currentTick "THREAD" .info "Thread blocked" (dataObject 256
          (threadFields (k₂.tcb t) ++ [textField "reason" (blockReasonToString reason)]))] ++
        ownerLog k₂ t fun pcb =>
          [loggerLog k₂.currentTick "SCHED" .info "Process blocked" (dataObject 128
            [intField "pid" pcb.pid, textField "reason" (blockReasonToString pcb.blockedReason)])] := rfl
  rw [hlog]
  split_ifs
  · exact lines_nil
  have hswitch : Lines tick (schedulerBlockLog k₁.sched t k₁.currentTick) := by
    rw [h₁.now]
    exact hann.schedulerBlock hf.disciplined.current_lt
  have hreason := fun r => fieldsWithin_nil.text "reason" (by decide) (plain_blockReasonToString r)
    (length_blockReasonToString r)
  refine (hswitch.append (lines_singleton (h₂.isLine (by decide) (by decide)
    (dataObject_eq (h₂.fieldsWithin_thread ht (hreason reason)) (by decide) (by decide))))).append
    (h₂.lines_ownerLog t fun c hc => lines_singleton (h₂.isLine (by decide) (by decide)
      (dataObject_eq ((hreason _).int "pid" (by decide) (length_pid hc)) (by decide) (by decide))))

namespace Reporting

/-- A call of the buffer that blocks the thread or puts an item through. -/
theorem lines_transfer (h : Reporting k tick) (hcur : k.sched.currentThread = some t)
    {r : BufferResult} (hr : r.buf.Inv) {item : ℤ} (hitem : IsInt item) {msg : String}
    (hmsg : Plain msg.toList) : Lines tick
      (if r.ret < 0 then bufferCallLog k.sensorBuf (k.tcb t).ownerPid tick ++
        blockThreadLog { k with sensorBuf := r.buf } t .mutexWait
      else bufferCallLog k.sensorBuf (k.tcb t).ownerPid tick ++
        loggerLog k.currentTick "SYNC" .info msg (dataObject 128 (itemFields (k.tcb t).ownerPid item r.buf)) ::
          wakeThreadsLog ({ k with sensorBuf := r.buf }.setTcb t threadExecute) r.wakePids) := by
  have hpid := h.owner t (h.disciplined.current_lt t hcur)
  have hcalls : Lines tick (bufferCallLog k.sensorBuf (k.tcb t).ownerPid tick) :=
    lines_bufferCall h.buf.mutexFree hpid
  have hk : Loggable { k with sensorBuf := r.buf } tick := h.same (.of_tables rfl rfl rfl rfl rfl)
  split_ifs
  · exact hcalls.append (hk.lines_blockThread h.disciplined h.quantum.1 hcur .mutexWait)
  · have hcount : IsInt r.buf.count := by
      have hle : r.buf.count ≤ ringBufferSize := hr.ring_wf.count_le
      have hsize : ringBufferSize = 8 := rfl
      constructor <;> omega
    have hfields := ((fieldsWithin_nil.int "buf_count" (by decide) hcount.length_le).int "item" (by decide)
      hitem.length_le).int "pid" (by decide) (length_pid hpid)
    have hexecute : SameIds { k with sensorBuf := r.buf }
        ({ k with sensorBuf := r.buf }.setTcb t threadExecute) := .setTcb _ t fun c => by
      unfold threadExecute
      split_ifs <;> exact ⟨rfl, rfl⟩
    exact hcalls.append (.cons (h.isLine (by decide) hmsg (dataObject_eq hfields (by decide) (by decide)))
      ((hk.same hexecute).lines_wakeThreads r.wakePids))

theorem lines_executeProduce (h : Reporting k tick) (hcur : k.sched.currentThread = some t) :
    Lines tick (executeProduceLog ⟨tick, tick⟩ k t) := by
  obtain ⟨hpid0, hpid⟩ := h.owner t (h.disciplined.current_lt t hcur)
  have hm : maxProcs = 16 := rfl
  have hl : lastTick = 21474836 := rfl
  obtain ⟨h0, hlast⟩ := h.clock
  have hitem : IsInt (k.currentTick * 100 + (k.tcb t).ownerPid) := by
    rw [h.now]
    constructor <;> omega
  refine h.lines_transfer hcur ?_ hitem (by decide)
  by_cases hfull : ringBufferSize ≤ k.sensorBuf.count
  · exact (produce_full h.buf hfull _ _).2.1
  · exact (produce_room h.buf (not_le.mp hfull) _ _).2.1

theorem lines_executeConsume (h : Reporting k tick) (hcur : k.sched.currentThread = some t) :
    Lines tick (executeConsumeLog ⟨tick, tick⟩ k t) := by
  by_cases hempty : k.sensorBuf.count = 0
  · obtain ⟨-, hitem, hinv, -⟩ := consume_empty h.buf hempty (k.tcb t).ownerPid
    refine h.lines_transfer hcur hinv ?_ (by decide)
    rw [hitem]
    decide
  · have hinv := bufferConsume_items h.buf hempty (k.tcb t).ownerPid
    obtain ⟨-, -, -, hbuf, -⟩ := consume_items h.buf hempty (k.tcb t).ownerPid
    refine h.lines_transfer hcur hbuf ?_ (by decide)
    rw [hinv]
    exact h.item _ h.buf.ring_wf.head_lt

theorem lines_executeAcquire (h : Reporting k tick) (hcur : k.sched.currentThread = some t) :
    Lines tick (executeAcquireLog ⟨tick, tick⟩ k t) := by
  have hpid := h.owner t (h.disciplined.current_lt t hcur)
  have hrid := validRid_wantedResource k (k.tcb t).ownerPid
  have hrequest : Lines tick (deadlockRequestLog k.graph (k.tcb t).ownerPid
      (wantedResource k (k.tcb t).ownerPid) tick) := lines_deadlockRequest h.available _ _
  have hline : ∀ {msg : String}, Plain msg.toList → IsLine tick (resourceLine msg (k.tcb t).ownerPid
      (wantedResource k (k.tcb t).ownerPid) k.currentTick) := fun hmsg => by
    rw [h.now]
    exact isLine_resourceLine hpid hrid hmsg
  unfold executeAcquireLog
  dsimp only
  split_ifs
  · exact hrequest.append (lines_singleton (hline (by decide)))
  · exact hrequest.append (lines_singleton (hline (by decide)))
  · have hk : ∀ g, Loggable { k with graph := g } tick := fun _ => h.same (.of_tables rfl rfl rfl rfl rfl)
    exact hrequest.append ((hk (deadlockRequest k.graph (k.tcb t).ownerPid
      (wantedResource k (k.tcb t).ownerPid)).1).lines_blockThread h.disciplined h.quantum.1 hcur .resourceWait)
  · exact lines_nil

theorem lines_executeIoWrite (h : Reporting k tick) (hcur : k.sched.currentThread = some t) :
    Lines tick (executeIoWriteLog k t) := by
  have hpid := h.owner t (h.disciplined.current_lt t hcur)
  have hfields := ((fieldsWithin_nil.int "duration" (by decide) (v := ioDuration) (m := 2)
    (length_decimal_two (by decide) (by decide))).text "path" (by decide)
    (plain_logPath (k.tcb t).ownerPid k.ioSeq) (length_logPath _ _)).int "pid" (by decide) (length_pid hpid)
  have hstore : ∀ seq fs, SameIds k { k with ioSeq := seq, fs := fs } :=
    fun _ _ => .of_tables rfl rfl rfl rfl rfl
  have hadvanced := h.same ((hstore (k.ioSeq + 1) (fsCreate k.fs (logPath (k.tcb t).ownerPid k.ioSeq)).1).trans
    (.setTcb _ t (f := TCB.advance) fun _ => ⟨rfl, rfl⟩))
  have hd := (Scheduler.frame_setTcb_of_kernel h.disciplined (t := t) (f := TCB.advance) rfl rfl rfl).disciplined
  exact .cons (h.isLine (by decide) (by decide) (dataObject_eq hfields (by decide) (by decide)))
    (hadvanced.lines_blockThread hd h.quantum.1 hcur .ioBlock)

theorem lines_executeCommand (h : Reporting k tick) (hcur : k.sched.currentThread = some t) :
    Lines tick (executeCommandLog ⟨tick, tick⟩ k t) := by
  unfold executeCommandLog
  cases threadCurrentCommand (k.tcb t) with
  | compute => exact lines_nil
  | produceData => exact h.lines_executeProduce hcur
  | consumeData => exact h.lines_executeConsume hcur
  | acquireResource => exact h.lines_executeAcquire hcur
  | ioWrite => exact h.lines_executeIoWrite hcur

end Reporting

end commands

/-! ## The parts of a tick -/

section parts

variable {k : Kernel} {tick : ℤ} {t : ℕ}

theorem sameIds_arrive (k : Kernel) (p : ℕ) : SameIds k (arrive k p) := by
  have hadd : ∀ (k : Kernel) t, SameIds k { k with sched := schedulerAdd k.sched t } := fun k t => by
    obtain ⟨hother, hself⟩ := tcb_schedulerAdd k.sched t
    have htcb : ∀ u, ((schedulerAdd k.sched t).tcb u).tid = (k.sched.tcb u).tid ∧
        ((schedulerAdd k.sched t).tcb u).ownerPid = (k.sched.tcb u).ownerPid := by
      intro u
      by_cases hu : u = t
      · subst hu
        rcases hself with hs | ⟨l, hs⟩ <;>
        · rw [hs]
          exact ⟨rfl, rfl⟩
      · rw [hother u hu]
        exact ⟨rfl, rfl⟩
    exact ⟨rfl, rfl, rfl, fun u => (htcb u).1, fun u => (htcb u).2, fun _ => ⟨rfl, rfl⟩⟩
  unfold arrive
  split_ifs
  · refine (SameIds.setProc k p (f := fun c => pcbSetState c .ready) ⟨rfl, rfl⟩).trans
      (.foldl (f := fun k t => if (k.tcb t).ownerPid = (k.procs p).pid then
        { k with sched := schedulerAdd k.sched t } else k) (fun k t => ?_) _ _)
    split_ifs
    · exact hadd k t
    · exact .refl k
  · exact .refl k

namespace Loggable

theorem lines_arrive (h : Loggable k tick) {p : ℕ} (hp : p < k.procCount) : Lines tick (arriveLog k p) := by
  obtain ⟨hplain, hlen⟩ := h.name p hp
  have hfields := ((fieldsWithin_nil.text "priority" (by decide) (plain_priorityToString (k.procs p).priority)
    (length_priorityToString _)).text "name" (by decide) hplain hlen).int "pid" (by decide)
    (length_pid (h.pid p hp))
  unfold arriveLog
  dsimp only
  split_ifs
  · exact lines_singleton (h.isLine (by decide) (by decide) (dataObject_eq hfields (by decide) (by decide)))
  · exact lines_nil

theorem lines_checkArrivals (h : Loggable k tick) :
    Lines tick (foldOut arrive arriveLog k (List.range k.procCount)) := by
  refine lines_foldOut (I := fun k' => Loggable k' tick ∧ k'.procCount = k.procCount) _ ⟨h, rfl⟩
    fun k' p hp hk' => ⟨⟨hk'.1.same (sameIds_arrive k' p), (sameIds_arrive k' p).procCount.trans hk'.2⟩, ?_⟩
  exact hk'.1.lines_arrive (hk'.2.symm ▸ List.mem_range.mp hp)

theorem lines_wakeBufferWaiters (h : Loggable k tick) : Lines tick (wakeBufferWaitersLog k) := by
  have hbuf : ∀ {k : Kernel} b, Loggable k tick → Loggable { k with sensorBuf := b } tick :=
    fun _ h => h.same (.of_tables rfl rfl rfl rfl rfl)
  have hwake : ∀ {k : Kernel} ids, Loggable k tick → Loggable (wakeThreads k ids) tick := fun ids h => by
    refine h.same (.foldl (fun k id => ?_) ids _)
    split
    · exact .refl k
    · split_ifs
      · exact sameIds_unblockThread k _
      · exact .refl k
  have h₁ : Loggable (wakeConsumers k) tick := by
    unfold wakeConsumers
    dsimp only
    split_ifs
    · exact hwake _ (hbuf _ h)
    · exact h
  have h₂ : Loggable (wakeProducers (wakeConsumers k)) tick := by
    unfold wakeProducers
    dsimp only
    split_ifs
    · exact hwake _ (hbuf _ h₁)
    · exact h₁
  refine Lines.append (.append ?_ ?_) ?_
  · unfold wakeConsumersLog
    split_ifs
    · exact (hbuf _ h).lines_wakeThreads _
    · exact lines_nil
  · unfold wakeProducersLog
    split_ifs
    · exact (hbuf _ h₁).lines_wakeThreads _
    · exact lines_nil
  · unfold wakeLockerLog
    split_ifs
    · exact (hbuf _ h₂).lines_wakeThreads _
    · exact lines_nil

end Loggable

namespace Reporting

theorem lines_ensureRunning (h : Reporting k tick) : Lines tick (ensureRunningLog k) := by
  have hann : Announced k.sched k.threadCount := h.announced h.disciplined h.quantum.1
  unfold ensureRunningLog
  split_ifs
  · exact lines_nil
  · rw [h.now]
    exact hann.schedulerNext (Scheduler.frame_schedulerNext h.disciplined).disciplined.current_lt

theorem lines_retire (h : Reporting k tick) (t : ℕ) :
    Lines tick (retireLog ⟨tick, tick⟩ k t) := by
  unfold retireLog
  split_ifs
  · cases hend : endingProcess k t with
    | none => exact lines_nil
    | some p =>
      have hp : p < k.procCount := by
        unfold endingProcess at hend
        split_ifs at hend
        exact (findProc_some (Option.filter_eq_some_iff.mp hend).1).1
      have hterminated : Loggable { k with sched := schedulerTerminate k.sched t } tick := by
        have hf := (Scheduler.frame_schedulerTerminate (t := t) h.disciplined).1
        exact h.same ⟨rfl, rfl, rfl, hf.tid, hf.ownerPid, fun _ => ⟨rfl, rfl⟩⟩
      exact hterminated.lines_cleanupProcess h.memTick h.buf hp (by decide) false
  · exact lines_nil

theorem lines_detectDeadlock (h : Reporting k tick) : Lines tick (detectDeadlockLog ⟨tick, tick⟩ k) := by
  unfold detectDeadlockLog
  cases hv : deadlockVictim k with
  | none => exact lines_nil
  | some p =>
    have hp := deadlockVictim_lt hv
    have hpid := h.pid p hp
    have hwoken := sameIds_applyWoken k (deadlockResolve k.graph (k.procs p).pid)
    have hsteady := steady_applyWoken k (deadlockResolve k.graph (k.procs p).pid)
    have hfields := fieldsWithin_nil.int "victim_pid" (by decide) (length_pid hpid)
    dsimp only
    rw [if_neg (not_not.mpr hpid)]
    refine Lines.append (.cons (h.isLine (by decide) (by decide)
      (dataObject_eq hfields (by decide) (by decide))) (h.lines_handOver _)) ?_
    refine (h.same hwoken).lines_cleanupProcess ?_ ?_ ?_ (by decide) false
    · rw [hsteady.mem]
      exact h.memTick
    · rw [hsteady.sensorBuf]
      exact h.buf
    · rw [hwoken.procCount]
      exact hp

theorem lines_injectCrash (h : Reporting k tick) : Lines tick (injectCrashLog ⟨tick, tick⟩ k) := by
  unfold injectCrashLog
  cases hc : crashedProcess k with
  | none => exact lines_nil
  | some p =>
    obtain ⟨-, -, hp, -⟩ := crashedProcess_some hc
    exact h.lines_cleanupProcess h.memTick h.buf hp (by decide) true

theorem lines_triggerPageFault (h : Reporting k tick) : Lines tick (triggerPageFaultLog k) := by
  unfold triggerPageFaultLog
  split_ifs
  · exact lines_nil
  · exact lines_nil
  cases hrun : k.runningThread with
  | none => exact lines_nil
  | some t =>
    dsimp only
    cases hf : k.findProc (k.tcb t).ownerPid with
    | none => exact lines_nil
    | some p =>
      dsimp only
      split_ifs with hfull hfault
      · exact lines_nil
      · have hpid := h.pid p (findProc_some hf).1
        have hpage := memGetPageCount_mem (c := k.procs p) (not_le.mp hfull)
        have hshort : (decimal ((memAccess k.mem (k.procs p)
            (memGetPageCount (k.procs p) * pageSize)).faultPage.getD 0)).length ≤ 2 := by
          have hm : maxPages = 16 := rfl
          obtain ⟨h0, hlt⟩ := mem_pageIndices.mp hpage
          rw [memAccess_pageStart _ _ hpage]
          split_ifs
          · exact length_decimal_two (v := memGetPageCount (k.procs p)) h0 (by omega)
          · exact length_decimal_two (v := 0) (by decide) (by decide)
        have hfields := (fieldsWithin_nil.int "page" (by decide) hshort).int "pid" (by decide) (length_pid hpid)
        have hmem : ∀ m, Loggable { k with mem := m } tick := fun _ => h.same (.of_tables rfl rfl rfl rfl rfl)
        exact .cons (h.isLine (by decide) (by decide) (dataObject_eq hfields (by decide) (by decide)))
          ((hmem (memAccess k.mem (k.procs p) (memGetPageCount (k.procs p) * pageSize)).mem).lines_blockThread
            h.disciplined h.quantum.1 (runningThread_some hrun).1 .pageFault)
      · exact lines_nil

theorem lines_schedulerTick (h : Reporting k tick) :
    Lines tick (schedulerTickLog k.sched k.currentTick) := by
  have hl : lastTick = 21474836 := rfl
  obtain ⟨h0, hlast⟩ := h.clock
  have hann : Announced k.sched k.threadCount := h.announced h.disciplined h.quantum.1
  rw [h.now]
  exact hann.schedulerTick h.disciplined h.quantum.2 (by constructor <;> omega) h.boosts

end Reporting

end parts

/-! ## The tick of the memory -/

section memory

theorem memTick_cleanupProcess (k : Kernel) (p : ℕ) (release : Bool) :
    (cleanupProcess k p release).mem.currentTick = k.mem.currentTick := by
  have he : cleanupProcess k p release =
      endThreads (terminate (takeOut k (k.procs p).pid release) p) (k.procs p).pid :=
    cleanupProcess_eq k p release
  have hout := congrArg PhysicalMemory.currentTick (mem_takeOut k (k.procs p).pid release)
  rw [he, (steady_endThreads _ _).mem]
  exact hout

/-- The tick of the memory is set at the top of the loop only. -/
theorem memTick_machineStep {m : Kernel × Phase} (ht : MachineTables m) (hp : m.2 ≠ .top) :
    (machineStep m).1.mem.currentTick = m.1.mem.currentTick := by
  obtain ⟨k, ph⟩ := m
  have hfold : ∀ {f : Kernel → ℕ → Kernel}, (∀ k i, (f k i).mem.currentTick = k.mem.currentTick) →
      ∀ l, (List.foldl f k l).mem.currentTick = k.mem.currentTick := fun {f} hf l =>
    List.foldlRecOn (motive := fun k' : Kernel => k'.mem.currentTick = k.mem.currentTick) l f rfl
      fun k' hk' i _ => (hf k' i).trans hk'
  cases ph with
  | top => exact absurd rfl hp
  | arrivals =>
    have hr := (arrived_checkArrivals ht.tables).rest
    simp only [machineStep]
    rw [hr]
  | ioEvents =>
    refine hfold (fun k i => ?_) _
    unfold completeIoEvent
    dsimp only
    split_ifs
    · rfl
    · cases k.findProc (k.pending i).pid with
      | none => rfl
      | some p => exact congrArg PhysicalMemory.currentTick (steady_unblockOwned { k with fs := _ } _ _).mem
  | pageFaults => exact hfold memTick_completePageFault _
  | dispatch =>
    simp only [machineStep, ensureRunning]
    split_ifs <;> rfl
  | execute =>
    simp only [machineStep]
    split
    · rfl
    · rw [frames_executeCommand]
  | retire t =>
    simp only [machineStep, retire]
    split_ifs
    · split
      · rfl
      · exact memTick_cleanupProcess _ _ false
    · rfl
  | detect =>
    simp only [machineStep, detectDeadlock]
    split
    · rfl
    · rw [memTick_cleanupProcess, (steady_applyWoken k _).mem]
  | crash =>
    simp only [machineStep, injectCrash]
    split
    · rfl
    · exact memTick_cleanupProcess k _ true
  | pageFault =>
    have haccess : ∀ pcb addr, (memAccess k.mem pcb addr).mem.currentTick = k.mem.currentTick := by
      intro pcb addr
      unfold memAccess
      dsimp only
      split_ifs <;> rfl
    rcases triggerPageFault_cases k with
      ⟨pcb, addr, he⟩ | he | ⟨t, p, pcb, addr, page, -, -, -, -, -, he⟩ <;>
      simp only [machineStep] <;> rw [he]
    · exact haccess pcb addr
    · rw [registerPageFault_rest]
      have hb := (steady_blockThread { k with mem := (memAccess k.mem pcb addr).mem } t .pageFault).mem
      exact (congrArg PhysicalMemory.currentTick hb).trans (haccess pcb addr)
  | snapshot => exact congrArg PhysicalMemory.currentTick (steady_snapshotSync k).mem
  | wakeWaiters => exact congrArg PhysicalMemory.currentTick (drained_wakeBufferWaiters k).steady.mem
  | finish =>
    simp only [machineStep]
    split_ifs <;> rfl
  | _ => rfl

theorem memTick_machineRun (k₀ : Kernel) (cfg : KernelConfig) {w : List ProcessSpec}
    (hw : ValidWorkload w) (n : ℕ) :
    let m := machineRun (kernelInit k₀ cfg w) n
    m.2 ≠ .top → m.2 ≠ .halted → m.1.mem.currentTick = m.1.currentTick := by
  induction n with
  | zero => exact fun htop => absurd rfl htop
  | succ n ih =>
    have ht := tables_machineRun k₀ cfg hw n
    intro m htop hhalt
    have hm : m = machineStep (machineRun (kernelInit k₀ cfg w) n) := machineRun_succ _ n
    rw [hm] at htop hhalt ⊢
    generalize machineRun (kernelInit k₀ cfg w) n = m' at *
    have htick := (tableStep ht).currentTick
    have hmem := memTick_machineStep ht
    obtain ⟨k, ph⟩ := m'
    cases ph with
    | top =>
      simp only [machineStep] at hhalt ⊢
      split_ifs at hhalt ⊢ with hlate
      · exact absurd rfl hhalt
      · rfl
    | finish =>
      simp only [machineStep] at htop hhalt
      split_ifs at htop hhalt
      · exact absurd rfl hhalt
      · exact absurd rfl htop
    | halted => exact absurd rfl hhalt
    | _ => rw [hmem (by simp), htick (by simp), ih (by simp) (by simp)]

end memory

/-! ## The states of a run -/

/-- What a part of a tick prints in a state of a run, at the clocks that the top of the loop sets. -/
theorem lines_partLog {m : Kernel × Phase} {tick : ℤ} (h : Reporting m.1 tick)
    (hsnapshot : m.2 = .snapshot →
      (snapshotSync m.1).Displayable ∧ PlainNames (snapshotSync m.1)) :
    Lines tick (partLog ⟨tick, tick⟩ m) := by
  have hend : ∀ {msg : String}, Plain msg.toList →
      IsLine tick (loggerLog m.1.currentTick "KERNEL" .info msg []) := fun hmsg => by
    rw [h.now]
    exact isLine_nil (by decide) hmsg
  obtain ⟨k, ph⟩ := m
  cases ph with
  | top =>
    simp only [partLog]
    split_ifs
    · exact lines_singleton (hend (by decide))
    · exact lines_nil
  | arrivals => exact h.lines_checkArrivals
  | ioEvents => exact h.lines_completeIoEvents h.files _
  | pageFaults => exact h.lines_completePageFaults h.pages h.memTick _
  | dispatch => exact h.lines_ensureRunning
  | execute =>
    simp only [partLog]
    cases hr : k.runningThread with
    | none => exact lines_nil
    | some t => exact h.lines_executeCommand (runningThread_some hr).1
  | retire t => exact h.lines_retire t
  | detect => exact h.lines_detectDeadlock
  | crash => exact h.lines_injectCrash
  | pageFault => exact h.lines_triggerPageFault
  | schedTick => exact h.lines_schedulerTick
  | snapshot =>
    obtain ⟨hd, hnames⟩ := hsnapshot rfl
    simp only [partLog, snapshotLog]
    split_ifs
    · exact lines_singleton (h.isLine (by decide) (by decide) ⟨_, text_snapshot hd hnames⟩)
    · exact lines_nil
  | wakeWaiters => exact h.lines_wakeBufferWaiters
  | finish =>
    simp only [partLog]
    split_ifs
    · exact lines_singleton (hend (by decide))
    · exact lines_nil
  | _ => exact lines_nil

/-! ## Initialisation -/

/-- What `kernel_init` keeps while it sets up the processes. -/
structure Booting (n : ℕ) (k : Kernel) : Prop where
  procCount : k.procCount = n
  pid : ∀ p < n, validPid (k.procs p).pid
  frames : FramesListed k
  memTick : k.mem.currentTick = 0

section boot

variable {k : Kernel} {n i : ℕ}

theorem memTick_bootPage (p : ℕ) (k : Kernel) (page : ℤ) :
    (bootPage p k page).mem.currentTick = k.mem.currentTick := by
  unfold bootPage
  rcases memAllocatePage_cases k.mem (k.procs p) page ⟨false, 0, 0, 0⟩ with
    ⟨-, ei, ret, -, he⟩ | ⟨-, -, ⟨f, -, -, he⟩ | ⟨-, f, -, he⟩⟩ <;> rw [he] <;> rfl

theorem memTick_bootProcess (k : Kernel) (spec : ProcessSpec × ℕ) :
    (bootProcess k spec).mem.currentTick = k.mem.currentTick := by
  have hfold : ∀ {α : Type} {f : Kernel → α → Kernel}, (∀ k a, (f k a).mem = k.mem) →
      ∀ (l : List α) k, (l.foldl f k).mem = k.mem := fun {α f} hf l k =>
    List.foldlRecOn (motive := fun k' : Kernel => k'.mem = k.mem) l f rfl
      fun k' hk' a _ => (hf k' a).trans hk'
  have hpages : ∀ k : Kernel, (bootPage spec.2 (bootPage spec.2 k 0) 1).mem.currentTick =
      k.mem.currentTick := fun k => (memTick_bootPage _ _ _).trans (memTick_bootPage _ _ _)
  have hthreads : ∀ (l : List ThreadSpec) k, (l.foldl (bootThread spec.2) k).mem = k.mem :=
    hfold fun _ _ => rfl
  have hadds : ∀ (l : List ℕ) k, (l.foldl (fun (k : Kernel) t =>
      { k with sched := schedulerAdd k.sched t }) k).mem = k.mem := hfold fun _ _ => rfl
  unfold bootProcess
  dsimp only
  split_ifs
  · rw [hadds, Kernel.setProc, hthreads]
    exact hpages _
  · rw [hthreads]
    exact hpages _

theorem Booting.taken (h : Booting n k) (hi : i < n) : (k.procs i).pid ≠ -1 := by
  have := (h.pid i hi).1
  omega

theorem Booting.bootProcess (h : Booting n k) (hi : i < n) (spec : ProcessSpec) :
    Booting n (bootProcess k (spec, i)) := by
  obtain ⟨k₁, h₁, h₂⟩ := samePages_bootProcess k spec i
  have hn : i < k₁.procCount := by
    rw [h₁.procCount, h.procCount]
    exact hi
  have hpid : ((bootPage i k₁ 0).procs i).pid = (k₁.procs i).pid :=
    (Timed.of_record (sameRecords_bootPage i k₁ 0 i)).1
  have htaken : (k₁.procs i).pid ≠ -1 := h₁.pid i ▸ h.taken hi
  have hframes := pageInvariant_framesListed.same h₁ h.frames
  have hpages : FramesListed (bootPage i (bootPage i k₁ 0) 1) :=
    framesListed_bootPage (framesListed_bootPage hframes hn htaken 0) hn (hpid ▸ htaken) 1
  refine ⟨(procCount_bootProcess k spec i).trans h.procCount, fun p hp => ?_,
    pageInvariant_framesListed.same h₂ hpages, (memTick_bootProcess k _).trans h.memTick⟩
  rw [pid_bootProcess]
  exact h.pid p hp

end boot

section run

variable (k₀ : Kernel) (cfg : KernelConfig) {w : List ProcessSpec}

theorem booting_clearedKernel (hw : ValidWorkload w) : Booting w.length (clearedKernel k₀ cfg w) := by
  refine ⟨rfl, fun p hp => ?_, ⟨⟨fun f _ => Or.inl rfl, ?_⟩,
    fun f _ => (by decide : (-1 : ℤ) ≤ -1 ∧ (-1 : ℤ) < maxPages)⟩, rfl⟩
  · have hpid : ((clearedKernel k₀ cfg w).procs p).pid = w[p].pid := by
      simp [clearedKernel, hp, ProcessSpec.create, droneSetCommands, pcbCreate]
    rw [hpid]
    exact hw.pid_range _ (List.getElem_mem hp)
  · change (frameCount : ℤ) = ((frameIndices.countP fun _ => (-1 : ℤ) = -1 : ℕ) : ℤ)
    decide

theorem framesListed_kernelInit (hw : ValidWorkload w) : FramesListed (kernelInit k₀ cfg w) := by
  have h : Booting w.length (kernelInit k₀ cfg w) := by
    rw [kernelInit_eq]
    refine List.foldlRecOn _ _ (booting_clearedKernel k₀ cfg hw) fun k hk spec hmem => ?_
    exact hk.bootProcess (List.snd_lt_of_mem_zipIdx hmem) spec.1
  exact h.frames

theorem reporting_machineRun (hw : ValidWorkload w) (hm : Moderate w) (hnames : ∀ p ∈ w, Plain p.name)
    (n : ℕ) :
    let m := machineRun (kernelInit k₀ cfg w) n
    m.1.currentTick ≤ lastTick → m.2 ≠ .top → m.2 ≠ .halted → Reporting m.1 m.1.currentTick := by
  intro m htick htop hhalt
  have htables := (tables_machineRun k₀ cfg hw n).tables
  have hids := ids_machineRun k₀ cfg hw n
  have hshown := (measured_machineRun k₀ cfg hw hm n).displayable hw hm htick
  have hplain := plainNames_machineRun k₀ cfg hw hnames n
  have hgauged : Gauged m.1.sched (clock m) := gauged_machineRun k₀ cfg hw n
  have hunits : m.1.graph.Units := units_machineRun k₀ cfg hw n
  have hnonneg : 0 ≤ m.1.currentTick := currentTick_nonneg k₀ cfg hw n
  have hfiles : Logged m.1 (m.1.currentTick + m.2.ran) := logged_machineRun k₀ cfg hw n
  have hran := m.2.ran_le
  have hl : lastTick = 21474836 := rfl
  obtain ⟨hc0, hc⟩ := clock_range (m := m) hnonneg htick
  refine {
    now := rfl
    tid := fun t ht => tid_range hids hm ht
    owner := fun t ht => htables.owner_valid ht
    pid := htables.pid_range
    name := fun p hp => ⟨hplain p hp, (hshown.proc p hp).name⟩
    clock := ⟨hnonneg, htick⟩
    memTick := memTick_machineRun k₀ cfg hw n htop hhalt
    disciplined := htables.disciplined
    quantum := ?_
    boosts := ?_
    buf := (stream_machineRun k₀ cfg hw n).buf
    item := hshown.sensorBuf.item
    available := fun r hr => ?_
    pages := pageInvariant_framesListed.machineRun
      ⟨pidTable_kernelInit k₀ cfg hw, framesListed_kernelInit k₀ cfg hw⟩ n
    files := hfiles.mono ?_ }
  · obtain ⟨hq0, hq⟩ := hgauged.quantum
    refine ⟨⟨?_, ?_⟩, ⟨?_, ?_⟩⟩ <;> omega
  · obtain ⟨hb0, hb⟩ := hgauged.boosts
    constructor <;> omega
  · have h0 := hunits.available_nonneg r hr
    have h1 := hunits.available_le r hr
    constructor <;> omega
  · omega

end run

end FleetOS
