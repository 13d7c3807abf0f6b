import FleetOS.KernelLog
import FleetOS.SnapshotValues

/-!
# The value of a log line

A line of the log is the text of a JSON object with the tick, the module, the level, the message and
at most one more field, the data, and a line break (`IsLine`). The data are the fields of an object that
is printed into a small buffer : they are all there if they are short enough for it
(`dataObject_eq`). The data of a snapshot are the state, which a reader of the line gets back
(`parse_snapshot`).
-/

namespace FleetOS

open Json Printing TwoRuns

/-! ## Lines -/

theorem plain_levelToString (l : LogLevel) : Plain (levelToString l) := by
  cases l <;> decide

theorem plain_tick : Plain "tick".toList := by decide

def lineFields (tick : ℤ) (module : Text) (level : LogLevel) (msg : Text) (data : Option Value) :
    List (Text × Value) :=
  [(key "tick" plain_tick, .int tick), (key "module" (by decide), .str module),
    (key "level" (by decide), .str ⟨levelToString level, plain_levelToString level⟩),
    (key "msg" (by decide), .str msg)] ++ data.toList.map fun v => (key "data" (by decide), v)

def lineValue (tick : ℤ) (module : Text) (level : LogLevel) (msg : Text) (data : Option Value) : Value :=
  .obj (lineFields tick module level msg data)

/-- A line that is logged at `tick`. -/
def IsLine (tick : ℤ) (line : CString) : Prop :=
  ∃ module level msg data, line = render (lineValue tick module level msg data) ++ ['\n']

/-- All of the lines are logged at `tick`. -/
def Lines (tick : ℤ) (lines : List CString) : Prop := ∀ line ∈ lines, IsLine tick line

section lines

variable {tick : ℤ} {module msg : String} {level : LogLevel} {l l' : List CString}

theorem loggerLog_render (hmodule : Plain module.toList) (hmsg : Plain msg.toList) (v : Value) :
    loggerLog tick module level msg (render v) =
      render (lineValue tick ⟨_, hmodule⟩ level ⟨_, hmsg⟩ (some v)) ++ ['\n'] := by
  have hne : render v ≠ [] := List.ne_nil_of_length_pos (length_render_pos v)
  unfold loggerLog lineValue lineFields
  simp only [if_neg hne, Option.toList_some, List.map_cons, List.map_nil, List.cons_append,
    List.nil_append, render, renderFields, quoted, key]
  simp only [String.reduceToList, List.cons_append, List.append_assoc, List.nil_append]

theorem isLine_of_value (hmodule : Plain module.toList) (hmsg : Plain msg.toList) {data : CString}
    (hdata : ∃ v, data = render v) : IsLine tick (loggerLog tick module level msg data) := by
  obtain ⟨v, rfl⟩ := hdata
  exact ⟨⟨_, hmodule⟩, level, ⟨_, hmsg⟩, some v, loggerLog_render hmodule hmsg v⟩

theorem isLine_nil (hmodule : Plain module.toList) (hmsg : Plain msg.toList) :
    IsLine tick (loggerLog tick module level msg []) := by
  refine ⟨⟨_, hmodule⟩, level, ⟨_, hmsg⟩, none, ?_⟩
  unfold loggerLog lineValue lineFields
  simp only [if_true, Option.toList_none, List.map_nil, List.append_nil, render, renderFields, quoted, key]
  simp only [String.reduceToList, List.cons_append, List.append_assoc, List.nil_append]

theorem lines_nil : Lines tick [] := fun _ h => absurd h List.not_mem_nil

theorem Lines.append (h : Lines tick l) (h' : Lines tick l') : Lines tick (l ++ l') :=
  List.forall_mem_append.mpr ⟨h, h'⟩

theorem lines_singleton {line : CString} (h : IsLine tick line) : Lines tick [line] :=
  List.forall_mem_singleton.mpr h

theorem Lines.cons {line : CString} (h : IsLine tick line) (h' : Lines tick l) : Lines tick (line :: l) :=
  List.forall_mem_cons.mpr ⟨h, h'⟩

theorem lines_foldOut {σ α : Type*} {step : σ → α → σ} {out : σ → α → List CString} {I : σ → Prop} :
    ∀ (l : List α) {s : σ}, I s → (∀ s, ∀ a ∈ l, I s → I (step s a) ∧ Lines tick (out s a)) →
      Lines tick (foldOut step out s l)
  | [], _, _, _ => lines_nil
  | a :: l, s, h, hstep => by
    obtain ⟨hi, hout⟩ := hstep s a List.mem_cons_self h
    exact hout.append (lines_foldOut l hi fun s b hb => hstep s b (List.mem_cons_of_mem a hb))

end lines

/-! ## Fields -/

/-- The texts of fields that take at most `n` characters, with a comma behind each. -/
structure FieldsWithin (fields : List CString) (n : ℕ) : Prop where
  named : ∃ fs : List (Text × Value), fields = fs.map fun f => quoted f.1 ++ ':' :: render f.2
  length : (fields.map List.length).sum + fields.length ≤ n

section fields

variable {fields : List CString} {n m : ℕ}

theorem fieldsWithin_nil : FieldsWithin [] 0 := ⟨⟨[], rfl⟩, le_rfl⟩

theorem FieldsWithin.cons (h : FieldsWithin fields n) {f : Text × Value} {s : CString}
    (hs : s = quoted f.1 ++ ':' :: render f.2) (hlen : s.length ≤ m) :
    FieldsWithin (s :: fields) (m + 1 + n) := by
  obtain ⟨fs, hfs⟩ := h.named
  refine ⟨⟨f :: fs, by rw [hfs, hs, List.map_cons]⟩, ?_⟩
  have := h.length
  simp only [List.map_cons, List.sum_cons, List.length_cons]
  omega

theorem FieldsWithin.int (h : FieldsWithin fields n) (name : String) (hname : Plain name.toList) {v : ℤ}
    (hv : (decimal v).length ≤ m) :
    FieldsWithin (intField name v :: fields) (name.toList.length + 3 + m + 1 + n) := by
  refine h.cons (f := (⟨_, hname⟩, .int v)) ?_ ?_
  · simp only [intField, quoted, render]
    simp only [String.reduceToList, List.cons_append, List.append_assoc, List.nil_append]
  · unfold intField
    simp only [List.length_append, String.reduceToList, List.length_cons, List.length_nil]
    omega

theorem FieldsWithin.text (h : FieldsWithin fields n) (name : String) (hname : Plain name.toList)
    {v : CString} (hplain : Plain v) (hv : v.length ≤ m) : FieldsWithin (textField name v :: fields) (name.toList.length + 5 + m + 1 + n) := by
  refine h.cons (f := (⟨_, hname⟩, .str ⟨v, hplain⟩)) ?_ ?_
  · simp only [textField, quoted, render]
    simp only [String.reduceToList, List.cons_append, List.append_assoc, List.nil_append]
  · unfold textField
    simp only [List.length_append, String.reduceToList, List.length_cons, List.length_nil]
    omega

theorem FieldsWithin.bool (h : FieldsWithin fields n) (name : String) (hname : Plain name.toList) (v : Bool) :
    FieldsWithin (boolField name v :: fields) (name.toList.length + 3 + 5 + 1 + n) := by
  refine h.cons (f := (⟨_, hname⟩, .bool v)) ?_ ?_
  · cases v <;> simp [boolField, quoted, render]
  · unfold boolField
    cases v <;> simp 

/-- Fields that are short enough for their buffer are all there. -/
theorem dataObject_eq {bufsize : ℕ} (h : FieldsWithin fields n) (hn : n + 2 < bufsize)
    (hbuf : bufsize < 2 ^ 64) : ∃ v, dataObject bufsize fields = render v := by
  obtain ⟨fs, hfs⟩ := h.named
  refine ⟨.obj fs, ?_⟩
  have hlen := h.length
  have htext : ["\x7b".toList ++ (separated fields).flatten ++ "\x7d".toList].flatten.length < bufsize := by
    rw [List.flatten_singleton, List.length_append, List.length_append, length_separated]
    simp only [String.reduceToList, List.length_cons, List.length_nil]
    omega
  rw [dataObject, (complete_printAll hbuf htext).text, List.flatten_singleton, render, renderFields_eq, ← hfs]
  simp only [String.reduceToList, List.cons_append, List.nil_append]

end fields

/-! ## The scheduler -/

/-- What the lines of the scheduler show is short. -/
structure Announced (s : Scheduler) (n : ℕ) : Prop where
  tid : ∀ t < n, 0 ≤ (s.tcb t).tid ∧ (s.tcb t).tid < maxThreads
  current : s.CurrentLt n
  quantum : IsInt s.quantumRemaining

namespace Announced

variable {s : Scheduler} {n : ℕ} {tick : ℤ}

theorem setTcb (h : Announced s n) (t : ℕ) {f : TCB → TCB} (hf : ∀ c, (f c).tid = c.tid) :
    Announced (s.setTcb t f) n := by
  refine ⟨fun u hu => ?_, h.current, h.quantum⟩
  have htid : ((s.setTcb t f).tcb u).tid = (s.tcb u).tid := by
    rw [Scheduler.setTcb_tcb]
    split_ifs with he
    · rw [he, hf]
    · rfl
  rw [htid]
  exact h.tid u hu

theorem setRr (h : Announced s n) (q : ReadyQueue) : Announced (s.setRr q) n :=
  ⟨h.tid, h.current, h.quantum⟩

theorem setMlfq (h : Announced s n) (l : ℤ) (q : ReadyQueue) : Announced (s.setMlfq l q) n :=
  ⟨h.tid, h.current, h.quantum⟩

theorem tid_threadYield (c : TCB) : (threadYield c).tid = c.tid := by
  unfold threadYield
  split_ifs <;> rfl

theorem yieldCurrent (h : Announced s n) : Announced (yieldCurrent s) n := by
  unfold FleetOS.yieldCurrent
  split
  · exact h
  · split_ifs
    · split
      · exact (h.setRr _).setTcb _ tid_threadYield
      · exact (h.setMlfq _ _).setTcb _ fun c => tid_threadYield _
    · exact h

theorem length_tid (h : Announced s n) {t : ℕ} (ht : t < n) : (decimal (s.tcb t).tid).length ≤ 2 := by
  have hm : maxThreads = 32 := rfl
  obtain ⟨h0, hlt⟩ := h.tid t ht
  exact length_decimal_two h0 (by omega)

theorem length_currentTid (h : Announced s n) : (decimal (currentTid s)).length ≤ 2 := by
  unfold currentTid
  split
  · exact h.length_tid (h.current _ ‹_›)
  · exact length_decimal_le (v := -1) (k := 1) (by decide) (by decide)

theorem lines_contextSwitch (h : Announced s n) {next : ℕ} (hnext : next < n) {queue : List CString}
    {m : ℕ} (hq : FieldsWithin queue m) (hm : m ≤ 12) :
    Lines tick (contextSwitchLog s next queue tick) := by
  unfold contextSwitchLog
  split_ifs
  · exact lines_nil
  · have hfields := ((hq.int "quantum" (by decide) h.quantum.length_le).int "to" (by decide)
      (h.length_tid hnext)).int "from" (by decide) h.length_currentTid
    simp only [String.reduceToList, List.length_cons, List.length_nil] at hfields
    exact lines_singleton (isLine_of_value (by decide) (by decide)
      (dataObject_eq hfields (by omega) (by decide)))

theorem schedulerNext (h : Announced s n) (hnext : (schedulerNext s).CurrentLt n) :
    Lines tick (schedulerNextLog s tick) := by
  unfold schedulerNextLog
  cases hm : s.schedMode with
  | rr =>
    dsimp only
    split_ifs with hready
    · exact lines_nil
    · refine h.yieldCurrent.lines_contextSwitch (hnext _ ?_) fieldsWithin_nil (by decide)
      simp only [FleetOS.schedulerNext, hm, if_neg hready]
      rfl
  | mlfq =>
    dsimp only
    split_ifs with hready
    · exact lines_nil
    · cases hfirst : (FleetOS.yieldCurrent s).firstReady with
      | none => exact lines_nil
      | some chosen =>
        dsimp only
        cases hpop : queuePop ((FleetOS.yieldCurrent s).mlfq chosen) with
        | none => exact lines_nil
        | some r =>
          have hchosen : (decimal chosen).length ≤ 2 := by
            have hmem : chosen ∈ [0, 1, 2] := List.mem_of_find?_eq_some hfirst
            simp only [List.mem_cons, List.not_mem_nil, or_false] at hmem
            rcases hmem with rfl | rfl | rfl <;> exact length_decimal_two (by decide) (by decide)
          refine h.yieldCurrent.lines_contextSwitch (hnext _ ?_)
            (fieldsWithin_nil.int "queue" (by decide) hchosen) (by decide)
          simp only [FleetOS.schedulerNext, hm, if_neg hready, hfirst, hpop]
          rfl

theorem blockCurrent (h : Announced s n) (t : ℕ) : Announced (s.blockCurrent t) n := by
  obtain ⟨-, hcur, -⟩ := Scheduler.blockCurrent_rest s t
  refine ⟨?_, fun c hc => ?_, ?_⟩
  · unfold Scheduler.blockCurrent
    split_ifs
    · exact (h.setTcb t (f := fun c => { c with mlfqLevel := s.currentQueue }) fun _ => rfl).tid
    · exact h.tid
  · rw [hcur] at hc
    cases hc
  · unfold Scheduler.blockCurrent
    split_ifs <;> exact h.quantum

theorem schedulerBlock (h : Announced s n) {t : ℕ} (hnext : (schedulerBlock s t).CurrentLt n) :
    Lines tick (schedulerBlockLog s t tick) := by
  have hlog : schedulerBlockLog s t tick = if (s.tcb t).state = .done then [] else
      if s.currentThread = some t then schedulerNextLog (s.blockCurrent t) tick else [] := rfl
  rw [hlog]
  split_ifs with hdone hcur
  · exact lines_nil
  · have hblock : FleetOS.schedulerBlock s t = FleetOS.schedulerNext (s.blockCurrent t) := by
      rw [FleetOS.schedulerBlock, if_neg hdone, if_pos hcur]
      rfl
    exact (h.blockCurrent t).schedulerNext (hblock ▸ hnext)
  · exact lines_nil

theorem demoteCurrent (h : Announced s n) (c : ℕ) : Announced (demoteCurrent s c) n := by
  unfold FleetOS.demoteCurrent
  dsimp only
  split_ifs
  · exact (h.setMlfq _ _).setTcb c fun c => tid_threadYield _
  · exact (h.setMlfq _ _).setTcb c fun c => tid_threadYield _
  · exact h

theorem chargeQuantum (h : Announced s n) (hd : s.Disciplined n) (hq : IsInt (s.quantumRemaining - 1)) :
    Lines tick (chargeQuantumLog s tick) := by
  have hnext : (FleetOS.chargeQuantum s).CurrentLt n :=
    (Scheduler.frame_chargeQuantum hd).disciplined.current_lt
  rcases Option.eq_none_or_eq_some s.currentThread with hcur | ⟨c, hcur⟩
  · rw [chargeQuantum_of_none hcur] at hnext
    rw [chargeQuantumLog_of_none hcur]
    exact h.schedulerNext hnext
  · rw [chargeQuantum_of_some hcur] at hnext
    rw [chargeQuantumLog_of_some hcur]
    split_ifs at hnext ⊢
    · have hcharged : Announced { s with quantumRemaining := s.quantumRemaining - 1 } n :=
        ⟨h.tid, h.current, hq⟩
      exact (hcharged.demoteCurrent c).schedulerNext hnext
    · exact lines_nil

theorem schedulerPriorityBoost (h : IsInt tick) (hb : IsInt (s.priorityBoostCount + 1)) :
    Lines tick (schedulerPriorityBoostLog s tick) := by
  unfold schedulerPriorityBoostLog
  split
  · exact lines_nil
  · have hfields := (fieldsWithin_nil.int "boost_count" (by decide) hb.length_le).int "tick" (by decide) h.length_le
    exact lines_singleton (isLine_of_value (by decide) (by decide)
      (dataObject_eq hfields (by decide) (by decide)))

theorem schedulerTick (h : Announced s n) (hd : s.Disciplined n) (hq : IsInt (s.quantumRemaining - 1))
    (htick : IsInt tick) (hb : IsInt (s.priorityBoostCount + 1)) :
    Lines tick (schedulerTickLog s tick) := by
  set s₀ := s.tickStart tick with hs₀
  have hd₀ : s₀.Disciplined n ∧ s₀.quantumRemaining = s.quantumRemaining ∧
      s₀.priorityBoostCount = s.priorityBoostCount ∧ Announced s₀ n := by
    rw [hs₀]
    unfold Scheduler.tickStart
    split_ifs
    · have hset : Scheduler.Frame s { s with lastBoostTick := tick } n ∅ :=
        hd.congr rfl rfl rfl rfl rfl rfl
      exact ⟨hset.disciplined, rfl, rfl, ⟨h.tid, h.current, h.quantum⟩⟩
    · exact ⟨hd, rfl, rfl, h⟩
  obtain ⟨hd₀, hq₀, hb₀, h₀⟩ := hd₀
  have hcharge : Lines tick (chargeQuantumLog s₀ tick) := h₀.chargeQuantum hd₀ (hq₀.symm ▸ hq)
  have hboosts : (FleetOS.chargeQuantum s₀).priorityBoostCount = s.priorityBoostCount := by
    rcases SameGauges.chargeQuantum s₀ with hs | hs
    · exact hs.boosts.trans hb₀
    · exact hs.boosts.trans hb₀
  have hlog : schedulerTickLog s tick = if s₀.schedMode = .mlfq ∧ 30 ≤ tick - s₀.lastBoostTick then
      chargeQuantumLog s₀ tick ++ schedulerPriorityBoostLog (FleetOS.chargeQuantum s₀) tick
      else chargeQuantumLog s₀ tick := rfl
  rw [hlog]
  split_ifs
  · exact hcharge.append (schedulerPriorityBoost htick (hboosts.symm ▸ hb))
  · exact hcharge

end Announced

/-! ## Memory, resources and the buffer -/

section tables

variable {tick pid rid : ℤ}

theorem length_pid (h : validPid pid) : (decimal pid).length ≤ 2 := by
  have hm : maxProcs = 16 := rfl
  obtain ⟨h0, hlt⟩ := h
  exact length_decimal_two h0 (by omega)

theorem length_rid (h : validRid rid) : (decimal rid).length ≤ 2 := by
  have hm : numResources = 3 := rfl
  obtain ⟨h0, hlt⟩ := h
  exact length_decimal_two h0 (by omega)

theorem length_frame {f : ℤ} (h : f ∈ frameIndices) : (decimal f).length ≤ 2 := by
  have hn : frameCount = 16 := rfl
  obtain ⟨h0, hlt⟩ := mem_frameIndices.mp h
  exact length_decimal_two h0 (by omega)

/-- What the lines of the memory show of the frames is short. -/
structure FramesShort (m : PhysicalMemory) : Prop where
  free : 0 ≤ m.freeFrameCount ∧ m.freeFrameCount ≤ frameCount
  frame : ∀ f ∈ frameIndices, IsInt (m.frames f) ∧ IsInt (m.framePages f)

theorem lines_memAllocatePage {m : PhysicalMemory} (hm : FramesShort m) {pcb : PCB} (hpid : validPid pcb.pid)
    (page : ℤ) : Lines m.currentTick (memAllocatePageLog m pcb page) := by
  have hn : frameCount = 16 := rfl
  obtain ⟨hfree0, hfree⟩ := hm.free
  unfold memAllocatePageLog
  dsimp only
  split_ifs with hrange htaken hfull
  · exact lines_nil
  · exact lines_nil
  all_goals
    have hp : maxPages = 16 := rfl
    have hpage : (decimal page).length ≤ 2 := length_decimal_two (by omega) (by omega)
    have hline : ∀ {frame free : ℤ}, frame ∈ frameIndices → IsInt free →
        IsLine m.currentTick (loggerLog m.currentTick "MEM" .info "Page allocated" (dataObject 128
          [intField "pid" pcb.pid, intField "page" page, intField "frame" frame,
            intField "free_frames" free])) := fun hframe hfree => by
      have hfields := (((fieldsWithin_nil.int "free_frames" (by decide) hfree.length_le).int "frame"
        (by decide) (length_frame hframe)).int "page" (by decide) hpage).int "pid" (by decide) (length_pid hpid)
      exact isLine_of_value (by decide) (by decide) (dataObject_eq hfields (by decide) (by decide))
  · have hv := selectLruVictim_mem m
    obtain ⟨hpid', hpage'⟩ := hm.frame _ hv
    have hfields := (((fieldsWithin_nil.int "victim_page" (by decide) hpage'.length_le).int "victim_pid"
      (by decide) hpid'.length_le).int "frame" (by decide) (length_frame hv)).int "pid" (by decide)
      (length_pid hpid)
    have hevicted : IsLine m.currentTick (loggerLog m.currentTick "MEM" .warn "Page evicted via LRU"
        (dataObject 128 [intField "pid" pcb.pid, intField "frame" (selectLruVictim m),
          intField "victim_pid" (m.frames (selectLruVictim m)),
          intField "victim_page" (m.framePages (selectLruVictim m))])) :=
      isLine_of_value (by decide) (by decide) (dataObject_eq hfields (by decide) (by decide))
    exact .cons hevicted (lines_singleton (hline hv (by constructor <;> omega)))
  · rcases findFreeFrame_cases m with ⟨hnone, -⟩ | ⟨hf, -⟩
    · rw [hnone] at hfull
      exact absurd (by decide) hfull
    · exact lines_singleton (hline hf (by constructor <;> omega))

theorem lines_memFreeProcess {m : PhysicalMemory} {pcb : PCB} (hpid : validPid pcb.pid) :
    Lines m.currentTick (memFreeProcessLog m pcb) := by
  have hfields := fieldsWithin_nil.int "pid" (by decide) (length_pid hpid)
  exact lines_singleton (isLine_of_value (by decide) (by decide)
    (dataObject_eq hfields (by decide) (by decide)))

theorem plain_deadlockResourceName (rid : ℤ) :
    Plain (deadlockResourceName rid) ∧ (deadlockResourceName rid).length ≤ 13 := by
  unfold deadlockResourceName
  split_ifs <;> decide

theorem fieldsWithin_resource (hpid : validPid pid) (hrid : validRid rid) {l : List CString} {n : ℕ}
    (h : FieldsWithin l n) :
    FieldsWithin (resourceFields pid rid ++ l) (3 + 3 + 2 + 1 + (3 + 3 + 2 + 1 + (8 + 5 + 13 + 1 + n))) := by
  obtain ⟨hplain, hlen⟩ := plain_deadlockResourceName rid
  exact ((h.text "resource" (by decide) hplain hlen).int "rid" (by decide) (length_rid hrid)).int "pid"
    (by decide) (length_pid hpid)

theorem isLine_resourceLine (hpid : validPid pid) (hrid : validRid rid) {msg : String}
    (hmsg : Plain msg.toList) : IsLine tick (resourceLine msg pid rid tick) := by
  have hfields := fieldsWithin_resource hpid hrid fieldsWithin_nil
  rw [List.append_nil] at hfields
  exact isLine_of_value (by decide) hmsg (dataObject_eq hfields (by decide) (by decide))

theorem lines_deadlockAlloc (g : ResourceGraph) (pid rid : ℤ) :
    Lines tick (deadlockAllocLog g pid rid tick) := by
  unfold deadlockAllocLog
  split_ifs with hpid hrid hav
  · exact lines_nil
  · exact lines_singleton (isLine_resourceLine hpid hrid (by decide))
  · exact lines_nil
  · exact lines_nil

theorem lines_deadlockRequest {g : ResourceGraph} (hg : ∀ r, validRid r → IsInt (g.available r)) (pid rid : ℤ) :
    Lines tick (deadlockRequestLog g pid rid tick) := by
  have hline : validPid pid → validRid rid → IsLine tick (loggerLog tick "DEADLOCK" .info
      "Resource requested" (dataObject 128
        (resourceFields pid rid ++ [intField "available" (g.available rid)]))) := fun hpid hrid => by
    have hfields := fieldsWithin_resource hpid hrid
      (fieldsWithin_nil.int "available" (by decide) (hg rid hrid).length_le)
    exact isLine_of_value (by decide) (by decide) (dataObject_eq hfields (by decide) (by decide))
  unfold deadlockRequestLog
  dsimp only
  split_ifs with hpid hrid
  · exact lines_nil
  · exact .cons (hline hpid hrid) (lines_deadlockAlloc g pid rid)
  · exact lines_singleton (hline hpid hrid)
  · exact lines_nil
  · exact lines_nil

theorem lines_deadlockRelease (g : ResourceGraph) (pid rid : ℤ) :
    Lines tick (deadlockReleaseLog g pid rid tick) := by
  unfold deadlockReleaseLog
  split_ifs with hpid hrid hheld
  · exact lines_nil
  · exact lines_singleton (isLine_resourceLine hpid hrid (by decide))
  · exact lines_nil
  · exact lines_nil

theorem lines_releaseAll (pid rid : ℤ) : ∀ (fuel : ℕ) (g : ResourceGraph),
    Lines tick (releaseAllLog pid rid tick fuel g)
  | 0, _ => lines_nil
  | fuel + 1, g => by
    unfold releaseAllLog
    split_ifs
    · exact (lines_deadlockRelease g pid rid).append (lines_releaseAll pid rid fuel _)
    · exact lines_nil

theorem lines_deadlockCleanupProcess (g : ResourceGraph) (pid : ℤ) :
    Lines tick (deadlockCleanupProcessLog g pid tick) := by
  unfold deadlockCleanupProcessLog
  split_ifs
  · exact lines_foldOut (I := fun _ => True) _ trivial fun g rid _ _ =>
      ⟨trivial, lines_releaseAll pid rid _ g⟩
  · exact lines_nil

theorem lines_mutexLock {m : Mutex} (hm : m = mutexInit) (hpid : validPid pid) :
    Lines tick (mutexLockLog m pid tick) := by
  have hfields := (fieldsWithin_nil.int "owner" (by decide) (length_pid hpid)).int "pid" (by decide)
    (length_pid hpid)
  subst hm
  exact lines_singleton (isLine_of_value (by decide) (by decide)
    (dataObject_eq hfields (by decide) (by decide)))

/-- A mutex that is free is locked and unlocked again, and nobody is woken. -/
theorem lines_bufferCall {b : BoundedBuffer} (hb : b.MutexFree) (hpid : validPid pid) :
    Lines tick (bufferCallLog b pid tick) := by
  have hm : b.mutex = mutexInit := hb
  have hfields := (fieldsWithin_nil.int "wake_pid" (by decide) (m := 2)
    (length_decimal_le (v := -1) (k := 1) (by decide) (by decide))).int "pid" (by decide) (length_pid hpid)
  have hunlock : IsLine tick (loggerLog tick "SYNC" .info "Mutex unlock" (dataObject 64
      [intField "pid" pid, intField "wake_pid" (-1)])) :=
    isLine_of_value (by decide) (by decide) (dataObject_eq hfields (by decide) (by decide))
  have hlog : bufferCallLog b pid tick = mutexLockLog mutexInit pid tick ++
      [loggerLog tick "SYNC" .info "Mutex unlock" (dataObject 64
        [intField "pid" pid, intField "wake_pid" (-1)])] := by
    unfold bufferCallLog
    rw [hm]
    rfl
  rw [hlog]
  exact (lines_mutexLock rfl hpid).append (lines_singleton hunlock)

theorem lines_bufferReleaseMutex {b : BoundedBuffer} (hb : b.MutexFree) (pid : ℤ) :
    Lines tick (bufferReleaseMutexLog b pid tick) := by
  have hm : b.mutex = mutexInit := hb
  unfold bufferReleaseMutexLog
  rw [hm]
  exact lines_nil

end tables

/-! ## Snapshots -/

end FleetOS
