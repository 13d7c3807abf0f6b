import FleetOS.RingBuffer
import FleetOS.Thread

/-!
# The scheduler

`scheduler.c` : one ready queue in round robin mode, three in multi-level feedback mode, and
the thread that has the processor. The scheduler writes into the TCBs its queues point to, so
the TCBs (`tcb`, by index in the thread table) are part of its state and the kernel reads and
writes them here.

The two modes keep separate copies of the queue code in C (`rr_ready_queue` and the
`ReadyQueue` functions). Both are the operations of `RingBuffer`. The log lines are
in `Log`, and here the `tick` arguments that only reach them are left out.
-/

namespace FleetOS

def maxReadyQueue : ℕ := maxThreads
def schedQuantumRr : ℤ := 4
def schedQuantumMlfqQ0 : ℤ := 2
def schedQuantumMlfqQ1 : ℤ := 4
def schedQuantumMlfqQ2 : ℤ := 8

/-- A ready queue of thread indices. -/
abbrev ReadyQueue := RingBuffer ℕ maxReadyQueue

structure Scheduler where
  tcb : ℕ → TCB
  rr : ReadyQueue
  /-- The queue of each level; the code uses levels `0`, `1` and `2`. -/
  mlfq : ℤ → ReadyQueue
  currentThread : Option ℕ
  schedMode : SchedMode
  quantumRemaining : ℤ
  contextSwitches : ℤ
  currentQueue : ℤ
  lastBoostTick : ℤ
  priorityBoostCount : ℤ
  threadTable : List ℕ

/-- Rewrite one TCB. -/
def Scheduler.setTcb (s : Scheduler) (t : ℕ) (f : TCB → TCB) : Scheduler :=
  { s with tcb := Function.update s.tcb t (f (s.tcb t)) }

def Scheduler.setRr (s : Scheduler) (q : ReadyQueue) : Scheduler :=
  { s with rr := q }

def Scheduler.setMlfq (s : Scheduler) (level : ℤ) (q : ReadyQueue) : Scheduler :=
  { s with mlfq := Function.update s.mlfq level q }

/-! ## Queues -/

def mlfqQuantum (queue : ℤ) : ℤ :=
  if queue = 0 then schedQuantumMlfqQ0
  else if queue = 1 then schedQuantumMlfqQ1
  else schedQuantumMlfqQ2

def findInQueue (q : ReadyQueue) (t : ℕ) : Option ℕ := q.index t

def queueRemoveAt (q : ReadyQueue) (idx : ℕ) : ReadyQueue := q.removeAt idx

def queuePush (q : ReadyQueue) (t : ℕ) : ReadyQueue :=
  if maxReadyQueue ≤ q.count then q
  else if (findInQueue q t).isSome then q
  else q.push t

def queuePop (q : ReadyQueue) : Option (ℕ × ReadyQueue) :=
  if q.count = 0 then none else some (q.slots q.head, q.pop)

def getMlfqLevel : Priority → ℤ
  | .critical => 0
  | .high => 0
  | .normal => 1
  | .low => 2

/-- The level a thread is queued at : its own, or by priority before it has one. -/
def TCB.queueLevel (t : TCB) : ℤ :=
  if 0 ≤ t.mlfqLevel then t.mlfqLevel else getMlfqLevel t.priority

/-- The first queue with a thread in it. -/
def Scheduler.firstReady (s : Scheduler) : Option ℤ :=
  [0, 1, 2].find? fun i => 0 < (s.mlfq i).count

def mlfqHasReady (s : Scheduler) : Bool := s.firstReady.isSome

def findInRr (s : Scheduler) (t : ℕ) : Option ℕ := s.rr.index t

def rrRemoveAt (s : Scheduler) (idx : ℕ) : Scheduler := s.setRr (s.rr.removeAt idx)

/-! ## Operations -/

/-- `scheduler_init`. The TCBs the pointers led to stay in memory. -/
def schedulerInit (s : Scheduler) (mode : SchedMode) : Scheduler where
  tcb := s.tcb
  rr := ⟨fun _ => 0, 0, 0⟩
  mlfq := fun _ => ⟨fun _ => 0, 0, 0⟩
  currentThread := none
  schedMode := mode
  quantumRemaining := match mode with
    | .rr => schedQuantumRr
    | .mlfq => schedQuantumMlfqQ0
  contextSwitches := 0
  currentQueue := 0
  lastBoostTick := 0
  priorityBoostCount := 0
  threadTable := []

/-- Enter a thread in `thread_table` unless it is there. -/
def Scheduler.register (s : Scheduler) (t : ℕ) : Scheduler :=
  if t ∈ s.threadTable then s
  else if s.threadTable.length < maxThreads then { s with threadTable := s.threadTable ++ [t] }
  else s

def schedulerAdd (s : Scheduler) (t : ℕ) : Scheduler :=
  match s.schedMode with
  | .rr =>
    if (findInRr s t).isSome then s
    else if maxReadyQueue ≤ s.rr.count then s
    else ((s.setRr (s.rr.push t)).setTcb t fun c => { c with state := .ready }).register t
  | .mlfq =>
    let level := (s.tcb t).queueLevel
    if (findInQueue (s.mlfq level) t).isSome then s
    else
      ((s.setMlfq level (queuePush (s.mlfq level) t)).setTcb t
        fun c => { c with mlfqLevel := level, state := .ready }).register t

/-- The first half of `scheduler_next` : a running thread goes back behind its queue. The
round robin copy pushes without a test for room. -/
def yieldCurrent (s : Scheduler) : Scheduler :=
  match s.currentThread with
  | none => s
  | some c =>
    if (s.tcb c).state = .running then
      match s.schedMode with
      | .rr => (s.setRr (s.rr.push c)).setTcb c threadYield
      | .mlfq =>
        let level := (s.tcb c).queueLevel
        (s.setMlfq level (queuePush (s.mlfq level) c)).setTcb c
          fun c => threadYield { c with mlfqLevel := level }
    else s

/-- The second half of `scheduler_next` : `next` gets the processor. -/
def dispatch (s : Scheduler) (next : ℕ) (quantum : ℤ) : Scheduler :=
  ({ s with
    contextSwitches :=
      if s.currentThread ≠ some next then s.contextSwitches + 1 else s.contextSwitches
    currentThread := some next
    quantumRemaining := quantum } : Scheduler).setTcb next fun c => { c with state := .running }

def schedulerNext (s : Scheduler) : Scheduler :=
  match s.schedMode with
  | .rr =>
    if s.rr.count = 0 then s
    else
      let s := yieldCurrent s
      dispatch (s.setRr s.rr.pop) (s.rr.slots s.rr.head) schedQuantumRr
  | .mlfq =>
    if !mlfqHasReady s then s
    else
      let s := yieldCurrent s
      match s.firstReady with
      | none => s
      | some chosen =>
        match queuePop (s.mlfq chosen) with
        | none => s
        | some (next, q) =>
          dispatch { s.setMlfq chosen q with currentQueue := chosen } next (mlfqQuantum chosen)

/-- Take a thread out of the ready queue it is in. -/
def removeQueued (s : Scheduler) (t : ℕ) : Scheduler :=
  match s.schedMode with
  | .rr =>
    match findInRr s t with
    | none => s
    | some idx => rrRemoveAt s idx
  | .mlfq =>
    match ([0, 1, 2] : List ℤ).find? fun i => (findInQueue (s.mlfq i) t).isSome with
    | none => s
    | some i =>
      match findInQueue (s.mlfq i) t with
      | none => s
      | some idx => s.setMlfq i (queueRemoveAt (s.mlfq i) idx)

def schedulerBlock (s : Scheduler) (t : ℕ) : Scheduler :=
  if (s.tcb t).state = .done then s
  else if s.currentThread = some t then
    let s := if s.schedMode = .mlfq then
        s.setTcb t fun c => { c with mlfqLevel := s.currentQueue }
      else s
    schedulerNext { s with currentThread := none }
  else removeQueued s t

def schedulerUnblock (s : Scheduler) (t : ℕ) : Scheduler := schedulerAdd s t

def schedulerTerminate (s : Scheduler) (t : ℕ) : Scheduler :=
  let s := if s.currentThread = some t then { s with currentThread := none } else s
  (removeQueued s t).setTcb t fun c => { c with state := .done }

/-- The `while` loop of the boost : every thread of queue `i` moves to queue `0`. Each round
takes one thread out, so `(s.mlfq i).count` rounds empty the queue. -/
def boostQueue (i : ℤ) : ℕ → Scheduler → Scheduler
  | 0, s => s
  | fuel + 1, s =>
    match queuePop (s.mlfq i) with
    | none => s
    | some (t, q) =>
      let s := (s.setMlfq i q).setTcb t fun c => { c with mlfqLevel := 0 }
      boostQueue i fuel (s.setMlfq 0 (queuePush (s.mlfq 0) t))

def schedulerPriorityBoost (s : Scheduler) (tick : ℤ) : Scheduler :=
  match s.schedMode with
  | .rr => s
  | .mlfq =>
    let s := { s with lastBoostTick := tick, priorityBoostCount := s.priorityBoostCount + 1 }
    let s := boostQueue 1 (s.mlfq 1).count s
    boostQueue 2 (s.mlfq 2).count s

/-- In feedback mode a thread that used up its quantum goes to the queue below. -/
def demoteCurrent (s : Scheduler) (c : ℕ) : Scheduler :=
  if s.schedMode = .mlfq ∧ (s.tcb c).state = .running then
    let level := if 2 < s.currentQueue + 1 then 2 else s.currentQueue + 1
    (s.setMlfq level (queuePush (s.mlfq level) c)).setTcb c
      fun c => threadYield { c with mlfqLevel := level }
  else s

/-- The middle of `scheduler_tick` : with no current thread the next one is dispatched,
otherwise the current thread is charged one tick. -/
def chargeQuantum (s : Scheduler) : Scheduler :=
  match s.currentThread with
  | none => schedulerNext s
  | some c =>
    let s := { s with quantumRemaining := s.quantumRemaining - 1 }
    if s.quantumRemaining ≤ 0 then schedulerNext (demoteCurrent s c) else s

theorem chargeQuantum_of_none {s : Scheduler} (h : s.currentThread = none) :
    chargeQuantum s = schedulerNext s := by
  unfold chargeQuantum
  rw [h]

theorem chargeQuantum_of_some {s : Scheduler} {c : ℕ} (h : s.currentThread = some c) :
    chargeQuantum s =
      if s.quantumRemaining - 1 ≤ 0 then
        schedulerNext (demoteCurrent { s with quantumRemaining := s.quantumRemaining - 1 } c)
      else { s with quantumRemaining := s.quantumRemaining - 1 } := by
  unfold chargeQuantum
  rw [h]

def schedulerTick (s : Scheduler) (tick : ℤ) : Scheduler :=
  let s := if s.schedMode = .mlfq ∧ s.lastBoostTick = 0 then { s with lastBoostTick := tick } else s
  if s.schedMode = .mlfq ∧ 30 ≤ tick - s.lastBoostTick then
    schedulerPriorityBoost (chargeQuantum s) tick
  else chargeQuantum s

/-- The current thread is charged and a boost may follow. What comes before concerns the tick of
the last boost only. -/
theorem schedulerTick_cases (s : Scheduler) (tick : ℤ) :
    ∃ b, schedulerTick s tick = chargeQuantum { s with lastBoostTick := b } ∨
      s.schedMode = .mlfq ∧
        schedulerTick s tick = schedulerPriorityBoost (chargeQuantum { s with lastBoostTick := b }) tick := by
  unfold schedulerTick
  dsimp only
  split_ifs with hstart hboost hboost
  · exact ⟨tick, Or.inr ⟨hboost.1, rfl⟩⟩
  · exact ⟨tick, Or.inl rfl⟩
  · exact ⟨s.lastBoostTick, Or.inr ⟨hboost.1, rfl⟩⟩
  · exact ⟨s.lastBoostTick, Or.inl rfl⟩

end FleetOS
