import Mathlib.Data.List.Basic
import Mathlib.Tactic

/-!
# Threads

The enumerations and sizes every module shares (`common.h`) and the thread control block
with its operations (`thread.c`). A C `int` is an integer, a pointer to a TCB is its index in
the kernel's thread table, and an array the code reads only up to its count is a list.
-/

namespace FleetOS

/-! ## Sizes -/

def maxProcs : ℕ := 16
def maxThreads : ℕ := 32
def maxCommands : ℕ := 32
def ioDuration : ℤ := 3
def pageFaultDuration : ℤ := 3
def pageFaultInterval : ℤ := 8
def snapshotInterval : ℤ := 5

/-! ## Enumerations -/

inductive ProcessState
  | new | ready | running | blocked | terminated | suspended
  deriving DecidableEq, Repr, Inhabited

inductive Priority
  | critical | high | normal | low
  deriving DecidableEq, Repr, Inhabited

/-- The value of the C enumerator. A larger value is a less important process. -/
def Priority.toNat : Priority → ℕ
  | .critical => 0
  | .high => 1
  | .normal => 2
  | .low => 3

inductive BlockReason
  | none | ioBlock | pageFault | mutexWait | resourceWait | condWait
  deriving DecidableEq, Repr, Inhabited

inductive CommandType
  | compute | produceData | consumeData | acquireResource | ioWrite
  deriving DecidableEq, Repr, Inhabited

inductive SchedMode
  | rr | mlfq
  deriving DecidableEq, Repr, Inhabited

inductive ThreadState
  | ready | running | blocked | done
  deriving DecidableEq, Repr, Inhabited

/-! ## The thread control block -/

structure TCB where
  tid : ℤ
  ownerPid : ℤ
  state : ThreadState
  localPc : ℤ
  waitReason : BlockReason
  commands : List CommandType
  commandCount : ℤ
  burstRemaining : ℤ
  commandTicksRemaining : ℤ
  priority : Priority
  mlfqLevel : ℤ
  deriving Repr, Inhabited

/-- `thread_create` on the memory `fresh` : the priority and the queue level stay what the
allocation left there, and the caller sets them. -/
def threadCreate (fresh : TCB) (tid ownerPid : ℤ) (cmds : List CommandType)
    (cmdCount burst : ℤ) : TCB :=
  let n := if cmdCount < maxCommands then cmdCount else maxCommands
  { fresh with
    tid := tid
    ownerPid := ownerPid
    state := .ready
    localPc := 0
    waitReason := .none
    commandCount := n
    commands := cmds.take n.toNat
    burstRemaining := burst
    commandTicksRemaining := 1 }

def threadYield (t : TCB) : TCB :=
  if t.state = .running then { t with state := .ready } else t

def threadBlock (t : TCB) (reason : BlockReason) : TCB :=
  { t with state := .blocked, waitReason := reason }

def threadUnblock (t : TCB) : TCB :=
  if t.state = .blocked then { t with state := .ready, waitReason := .none } else t

def threadCurrentCommand (t : TCB) : CommandType :=
  if t.commandCount ≤ 0 then .compute
  else t.commands.getD (t.localPc.tmod t.commandCount).toNat .compute

/-- The next value of `local_pc`, which the kernel also computes inline. The remainder by a
zero `command_count` is undefined in C; here it is the dividend (`threadExecuteChecked` keeps the
two apart). -/
def TCB.nextPc (t : TCB) : ℤ := (t.localPc + 1).tmod t.commandCount

def threadExecute (t : TCB) : TCB :=
  if t.state ≠ .running then t
  else if t.burstRemaining ≤ 0 then t
  else if t.commandTicksRemaining - 1 ≤ 0 then
    { t with
      localPc := t.nextPc
      commandTicksRemaining := 1
      burstRemaining := t.burstRemaining - 1 }
  else
    { t with
      commandTicksRemaining := t.commandTicksRemaining - 1
      burstRemaining := t.burstRemaining - 1 }

/-- A command the kernel carries out itself : the program counter moves on and one unit of
the burst is used up. -/
def TCB.advance (t : TCB) : TCB :=
  { t with
    localPc := t.nextPc
    commandTicksRemaining := 1
    burstRemaining := t.burstRemaining - 1 }

/-! ## What the operations leave alone -/

/-- The part of a TCB that is fixed when the thread is made. -/
def TCB.ident (t : TCB) : ℤ × ℤ × List CommandType × ℤ × Priority :=
  (t.tid, t.ownerPid, t.commands, t.commandCount, t.priority)

@[simp] theorem ident_threadUnblock (t : TCB) : (threadUnblock t).ident = t.ident := by
  unfold threadUnblock
  split_ifs <;> rfl

@[simp] theorem ident_threadExecute (t : TCB) : (threadExecute t).ident = t.ident := by
  unfold threadExecute
  split_ifs <;> rfl

@[simp] theorem state_threadExecute (t : TCB) : (threadExecute t).state = t.state := by
  unfold threadExecute
  split_ifs <;> rfl

@[simp] theorem mlfqLevel_threadExecute (t : TCB) : (threadExecute t).mlfqLevel = t.mlfqLevel := by
  unfold threadExecute
  split_ifs <;> rfl

end FleetOS
