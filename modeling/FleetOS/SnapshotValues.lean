import FleetOS.DisplayedRuns
import FleetOS.Json

/-!
# The value of a snapshot

A snapshot is the text of a JSON value : an object with the processes that have not ended, each with
its threads, the frames, the queues, the files and the buffer (`snapshotValue`). Where nothing is cut
(`Kernel.Displayable`) and the names need no escapes (`PlainNames`), the text is exactly that of the
value (`text_snapshot`), so that who reads it gets the value back.
-/

namespace FleetOS

open Json Printing

/-! ## Values -/

theorem plain_stateToString (s : ProcessState) : Plain (stateToString s) := by
  cases s <;> decide

theorem plain_priorityToString (p : Priority) : Plain (priorityToString p) := by
  cases p <;> decide

theorem plain_blockReasonToString (r : BlockReason) : Plain (blockReasonToString r) := by
  cases r <;> decide

theorem plain_threadStateToString (s : ThreadState) : Plain (threadStateToString s) := by
  cases s <;> decide

def reasonValue (r : BlockReason) : Value := .str ⟨blockReasonToString r, plain_blockReasonToString r⟩

def threadValue (t : TCB) : Value :=
  .obj [(key "tid" (by decide), .int t.tid),
    (key "state" (by decide), .str ⟨threadStateToString t.state, plain_threadStateToString _⟩),
    (key "local_pc" (by decide), .int t.localPc),
    (key "wait_reason" (by decide), reasonValue t.waitReason),
    (key "burst_remaining" (by decide), .int t.burstRemaining)]

/-- The primary thread of a process. -/
def primaryValue (k : Kernel) (pid : ℤ) : Value :=
  match selectPrimaryThread k pid with
  | some t => threadValue (k.tcb t)
  | none => .obj [(key "tid" (by decide), .int (-1))]

def pcbValue (k : Kernel) (p : PCB) : Value :=
  .obj [(key "pid" (by decide), .int p.pid),
    (key "name" (by decide), .str (text p.name)),
    (key "state" (by decide), .str ⟨stateToString p.state, plain_stateToString _⟩),
    (key "priority" (by decide), .str ⟨priorityToString p.priority, plain_priorityToString _⟩),
    (key "pc" (by decide), .int p.programCounter),
    (key "burst_remaining" (by decide), .int p.burstRemaining),
    (key "wait_time" (by decide), .int p.waitTime),
    (key "blocked_reason" (by decide), reasonValue p.blockedReason),
    (key "command_ticks_remaining" (by decide), .int p.commandTicksRemaining),
    (key "completion_tick" (by decide), .int p.completionTick),
    (key "thread" (by decide), primaryValue k p.pid),
    (key "threads" (by decide), .arr ((k.ownThreads p.pid).map fun t => threadValue (k.tcb t)))]

def frameValue (m : PhysicalMemory) (i : ℤ) : Value :=
  .obj [(key "frame" (by decide), .int i), (key "pid" (by decide), .int (m.frames i))]

def memoryValue (m : PhysicalMemory) : Value :=
  .obj [(key "free_frames" (by decide), .int m.freeFrameCount),
    (key "framemap" (by decide), .arr (frameIndices.map (frameValue m)))]

def queueValue (s : Scheduler) (q : ReadyQueue) : Value :=
  .arr (q.toList.map fun t => .int (s.tcb t).tid)

def schedulerValue (s : Scheduler) : Value :=
  match s.schedMode with
  | .rr =>
    .obj [(key "mode" (by decide), .str (key "RR" (by decide))),
      (key "current_tid" (by decide), .int (currentTid s)),
      (key "quantum_remaining" (by decide), .int s.quantumRemaining),
      (key "ready" (by decide), queueValue s s.rr)]
  | .mlfq =>
    .obj [(key "mode" (by decide), .str (key "MLFQ" (by decide))),
      (key "current_tid" (by decide), .int (currentTid s)),
      (key "quantum_remaining" (by decide), .int s.quantumRemaining),
      (key "current_queue" (by decide), .int s.currentQueue),
      (key "priority_boosts" (by decide), .int s.priorityBoostCount),
      (key "q0" (by decide), queueValue s (s.mlfq 0)),
      (key "q1" (by decide), queueValue s (s.mlfq 1)),
      (key "q2" (by decide), queueValue s (s.mlfq 2))]

def fileValue (f : FileEntry) : Value :=
  .obj [(key "path" (by decide), .str (text f.path)), (key "size" (by decide), .int f.size)]

def filesystemValue (fs : FileSystem) : Value :=
  .obj [(key "file_count" (by decide), .int fs.fileCount),
    (key "files" (by decide),
      .arr (((List.range maxFiles).filter fun i => (fs.files i).used).map fun i => fileValue (fs.files i)))]

def bufferValue (b : BoundedBuffer) : Value :=
  .obj [(key "count" (by decide), .int b.count),
    (key "in" (by decide), .int b.inPos),
    (key "out" (by decide), .int b.outPos),
    (key "mutex_owner" (by decide), .int b.mutex.ownerPid),
    (key "items" (by decide), .arr ((List.range (min b.count ringBufferSize)).map fun i =>
      .int (b.buffer ((b.outPos + i) % ringBufferSize))))]

def snapshotValue (k : Kernel) : Value :=
  .obj [(key "procs" (by decide), .arr (k.shownProcs.map fun p => pcbValue k (k.procs p))),
    (key "memory" (by decide), memoryValue k.mem),
    (key "scheduler" (by decide), schedulerValue k.sched),
    (key "filesystem" (by decide), filesystemValue k.fs),
    (key "buffer" (by decide), bufferValue k.sensorBuf)]

/-! ## Texts -/

/-- The names of the processes need no escapes. -/
def PlainNames (k : Kernel) : Prop := ∀ p < k.procCount, Plain (k.procs p).name

section texts

variable {k : Kernel}

theorem render_threadValue (t : TCB) : render (threadValue t) = threadText t := by
  unfold threadText threadValue reasonValue
  simp only [render, renderFields, quoted, key]
  simp only [String.reduceToList, List.cons_append, List.append_assoc, List.nil_append]

/-- A list between its brackets. -/
theorem render_arr {α : Type*} (l : List α) (f : α → Value) :
    render (.arr (l.map f)) = '[' :: (separated (l.map fun a => render (f a))).flatten ++ [']'] := by
  rw [render, renderItems_eq, List.map_map]
  rfl

theorem flatten_enclosed (head tail : CString) (items : List CString) :
    ([head] ++ separated items ++ [tail]).flatten = head ++ ((separated items).flatten ++ tail) := by
  simp

theorem text_threadToJson {t : TCB} (h : t.Displayable) :
    (threadToJson t 256).text = render (threadValue t) := by
  rw [h.complete.text, List.flatten_singleton, render_threadValue]

theorem text_primaryThreadToJson (h : k.Displayable) (pid : ℤ) :
    (primaryThreadToJson k pid 256).text = render (primaryValue k pid) := by
  unfold primaryThreadToJson primaryValue
  cases hs : selectPrimaryThread k pid with
  | none =>
    have hminus : decimal (-1) = "-1".toList := (decimal_negSucc 0).trans (by decide)
    have hnone : (printAll 256 ["\x7b\"tid\":-1\x7d".toList]).text = "\x7b\"tid\":-1\x7d".toList := by
      decide
    dsimp only
    rw [hnone]
    simp only [render, renderFields, quoted, key, hminus]
    rfl
  | some t =>
    have ht : t ∈ k.threads := (List.mem_filter.mp (mem_of_selectPrimaryThread hs)).1
    exact text_threadToJson (h.thread t (List.mem_range.mp ht))

set_option maxRecDepth 2000 in
theorem text_pcbToJson (h : k.Displayable) {p : ℕ} (hp : p < k.procCount)
    (hname : Plain (k.procs p).name) :
    (pcbToJsonWithThreads k (k.procs p) 2048).text = render (pcbValue k (k.procs p)) := by
  have hthreads : ((k.ownThreads (k.procs p).pid).map fun t => (threadToJson (k.tcb t) 256).text) =
      (k.ownThreads (k.procs p).pid).map fun t => render (threadValue (k.tcb t)) := by
    refine List.map_congr_left fun t ht => ?_
    exact text_threadToJson (h.thread t (List.mem_range.mp (List.mem_filter.mp ht).1))
  rw [(h.complete_pcb hp).text, pcbTexts, hthreads, text_primaryThreadToJson h, flatten_enclosed]
  unfold pcbText pcbValue reasonValue
  simp only [render, renderFields, quoted, key, renderItems_eq, chars_text hname, List.map_map]
  simp only [Function.comp_def, String.reduceToList, List.cons_append, List.append_assoc, List.nil_append]

theorem render_frameValue (m : PhysicalMemory) (i : ℤ) : render (frameValue m i) = frameText m i := by
  unfold frameText frameValue
  simp only [render, renderFields, quoted, key]
  simp only [String.reduceToList, List.cons_append, List.append_assoc, List.nil_append]

theorem text_memToJson (h : k.Displayable) :
    '\x7b' :: (memToJson k.mem 1024).text ++ ['\x7d'] = render (memoryValue k.mem) := by
  have hframes : (frameIndices.map fun i => (frameToJson k.mem i).text) =
      frameIndices.map fun i => render (frameValue k.mem i) := by
    refine List.map_congr_left fun i hi => ?_
    rw [(h.complete_frame hi).text, List.flatten_singleton, render_frameValue]
  rw [memToJson, (complete_printAll (by decide) (h.length_memTexts.trans_lt (by decide))).text,
    memTexts, hframes, flatten_enclosed]
  unfold memoryValue
  simp only [render, renderFields, quoted, key, renderItems_eq, List.map_map]
  simp only [Function.comp_def, String.reduceToList, List.cons_append, List.append_assoc, List.nil_append]

theorem render_queueValue (s : Scheduler) (q : ReadyQueue) :
    render (queueValue s q) = '[' :: (separated (queueTids s q)).flatten ++ [']'] := by
  rw [queueValue, render_arr, queueTids]
  simp only [render]

theorem flatten_levelTexts (s : Scheduler) {level : ℤ} {d : Char} (hl : decimal level = [d]) :
    (levelTexts s level).flatten =
      ',' :: '"' :: 'q' :: d :: '"' :: ':' :: render (queueValue s (s.mlfq level)) := by
  rw [levelTexts, flatten_enclosed, render_queueValue, hl]
  simp only [String.reduceToList, List.cons_append, List.nil_append]

theorem text_schedulerToJson {s : Scheduler} (h : s.Displayable) :
    (schedulerToJson s 1024).text = render (schedulerValue s) := by
  rw [schedulerToJson, (complete_printAll (by decide) (h.length_schedulerTexts.trans_lt (by decide))).text]
  unfold schedulerTexts schedulerValue
  cases s.schedMode with
  | rr =>
    dsimp only
    rw [flatten_enclosed]
    simp only [render, renderFields, quoted, key, render_queueValue]
    simp only [String.reduceToList, List.cons_append, List.append_assoc, List.nil_append]
  | mlfq =>
    have hdigit : decimal 0 = ['0'] ∧ decimal 1 = ['1'] ∧ decimal 2 = ['2'] :=
      ⟨(decimal_natCast 0).trans (by decide), (decimal_natCast 1).trans (by decide),
        (decimal_natCast 2).trans (by decide)⟩
    simp only [List.flatten_append, List.flatten_singleton, flatten_levelTexts s hdigit.1,
      flatten_levelTexts s hdigit.2.1, flatten_levelTexts s hdigit.2.2, render, renderFields, quoted, key]
    simp only [String.reduceToList, List.cons_append, List.append_assoc, List.nil_append]

theorem render_fileValue {f : FileEntry} (h : Plain f.path) : render (fileValue f) = fileText f := by
  unfold fileText fileValue
  simp only [render, renderFields, quoted, key, chars_text h]
  simp only [String.reduceToList, List.cons_append, List.append_assoc, List.nil_append]

theorem plain_logPath (pid seq : ℤ) : Plain (logPath pid seq) := by
  have htext : logPath pid seq = ("/logs/drone_".toList ++ decimal pid ++ "_seq_".toList ++
      decimal seq ++ ".log".toList).take 63 := by
    unfold logPath decimal
    rw [String.toList_append, String.toList_append, String.toList_append, String.toList_append]
  have hparts : Plain "/logs/drone_".toList ∧ Plain "_seq_".toList ∧ Plain ".log".toList := by
    decide
  rw [htext]
  exact ((((hparts.1.append (plain_decimal pid)).append hparts.2.1).append (plain_decimal seq)).append
    hparts.2.2).take 63

theorem KernelPath.plain {path : CString} (h : KernelPath path) : Plain path := by
  rcases h with hdir | ⟨pid, seq, -, -, rfl⟩
  · have hall : ∀ p ∈ ["/missions/".toList, "/logs/".toList, "/config/".toList], Plain p := by
      decide
    exact hall path hdir
  · exact plain_logPath pid seq

theorem text_fsToJson {fs : FileSystem} (h : fs.Displayable) :
    '\x7b' :: (fsToJson fs 1024).text ++ ['\x7d'] = render (filesystemValue fs) := by
  have hfiles : (((List.range maxFiles).filter fun i => (fs.files i).used).map fun i =>
      fileText (fs.files i)) = ((List.range maxFiles).filter fun i => (fs.files i).used).map fun i =>
        render (fileValue (fs.files i)) := by
    refine List.map_congr_left fun i hi => ?_
    obtain ⟨hi, hu⟩ := List.mem_filter.mp hi
    exact (render_fileValue (h.path i (List.mem_range.mp hi) hu).plain).symm
  rw [fsToJson, (complete_printAll (by decide) (h.length_fsTexts.trans_lt (by decide))).text, fsTexts,
    hfiles, flatten_enclosed]
  unfold filesystemValue
  simp only [render, renderFields, quoted, key, renderItems_eq, List.map_map]
  simp only [Function.comp_def, String.reduceToList, List.cons_append, List.append_assoc, List.nil_append]

theorem text_bufferToJson {b : BoundedBuffer} (h : b.Displayable) :
    (bufferToJson b 512).text = render (bufferValue b) := by
  rw [bufferToJson, (complete_printAll (by decide) (h.length_bufferTexts.trans_lt (by decide))).text,
    bufferTexts, itemTexts, flatten_enclosed]
  unfold bufferValue
  simp only [render, renderFields, quoted, key, renderItems_eq, List.map_map]
  simp only [Function.comp_def, render, String.reduceToList, List.cons_append, List.append_assoc,
    List.nil_append]

theorem text_snapshot (h : k.Displayable) (hnames : PlainNames k) :
    (snapshot k).text = render (snapshotValue k) := by
  have hprocs : (k.shownProcs.map fun p => (pcbToJsonWithThreads k (k.procs p) 2048).text) =
      k.shownProcs.map fun p => render (pcbValue k (k.procs p)) := by
    refine List.map_congr_left fun p hp => ?_
    have hp := List.mem_range.mp (List.mem_filter.mp hp).1
    exact text_pcbToJson h hp (hnames p hp)
  have hmem := text_memToJson h
  have hfs := text_fsToJson h.fs
  rw [snapshot, (complete_printAll (by decide) (h.length_snapshotTexts.trans_lt (by decide))).text]
  unfold snapshotTexts snapshotValue
  simp only [render, renderFields, quoted, key, renderItems_eq, List.map_map, ← hmem, ← hfs, hprocs,
    text_schedulerToJson h.sched, text_bufferToJson h.sensorBuf, List.flatten_append,
    List.flatten_cons, List.flatten_nil]
  simp only [Function.comp_def, String.reduceToList, List.cons_append, List.append_assoc,
    List.nil_append, List.append_nil]

end texts

/-! ## Runs -/

/-- The names do not change during a run. -/
theorem plainNames_machineRun (k₀ : Kernel) (cfg : KernelConfig) {w : List ProcessSpec}
    (hw : ValidWorkload w) (hnames : ∀ p ∈ w, Plain p.name) (n : ℕ) :
    PlainNames (machineRun (kernelInit k₀ cfg w) n).1 := by
  intro p hp
  have hpw : p < w.length := (threadsOf_machineRun k₀ cfg hw 0 n).2 ▸ hp
  have hmade := congrArg PCB.name (made_machineRun k₀ cfg hpw n)
  have hname : ((machineRun (kernelInit k₀ cfg w) n).1.procs p).name = w[p].name.take 31 := hmade
  rw [hname]
  exact (hnames _ (List.getElem_mem hpw)).take 31

end FleetOS
