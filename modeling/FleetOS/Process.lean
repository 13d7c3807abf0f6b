import FleetOS.Thread

/-!
# Processes

The process control block (`pcb.h`, `pcb.c`). The registers, `held_resources` and
`requested_resource` are left out : no function reads them.
-/

namespace FleetOS

/-- The characters of a C string before its terminating zero. -/
abbrev CString := List Char

structure PCB where
  pid : ℤ
  name : CString
  state : ProcessState
  priority : Priority
  programCounter : ℤ
  /-- The frame of each page, `-1` for an unmapped page. -/
  pageTable : ℤ → ℤ
  pagesUsed : ℤ
  arrivalTime : ℤ
  burstRemaining : ℤ
  waitTime : ℤ
  blockedReason : BlockReason
  commands : List CommandType
  commandCount : ℤ
  commandTicksRemaining : ℤ
  mlfqLevel : ℤ
  completionTick : ℤ
  deriving Inhabited

def pcbCreate (pid : ℤ) (name : CString) (priority : Priority) : PCB where
  pid := pid
  name := name.take 31
  state := .new
  priority := priority
  programCounter := 0
  pageTable _ := -1
  pagesUsed := 0
  arrivalTime := 0
  burstRemaining := 0
  waitTime := 0
  blockedReason := .none
  commands := []
  commandCount := 0
  commandTicksRemaining := 0
  mlfqLevel := -1
  completionTick := -1

def pcbSetState (p : PCB) (state : ProcessState) : PCB := { p with state := state }

/-- `drone_set_commands` : the command stream and the burst of a new process. -/
def droneSetCommands (p : PCB) (cmds : List CommandType) (count burst : ℤ) : PCB :=
  { p with
    commandCount := count
    commands := cmds.take (min count maxCommands).toNat
    programCounter := 0
    commandTicksRemaining := 1
    burstRemaining := burst }

/-- The first of the `n` processes of the table with this pid. -/
def findProc (procs : ℕ → PCB) (n : ℕ) (pid : ℤ) : Option ℕ :=
  (List.range n).find? fun i => (procs i).pid = pid

/-- The pids of the table are distinct. -/
def DistinctPids (procs : ℕ → PCB) (n : ℕ) : Prop :=
  ∀ i < n, ∀ j < n, (procs i).pid = (procs j).pid → i = j

theorem findProc_eq_some {procs : ℕ → PCB} {n p : ℕ} {pid : ℤ}
    (h : findProc procs n pid = some p) : p < n ∧ (procs p).pid = pid := by
  obtain ⟨hp, hn, -⟩ := List.find?_range_eq_some.mp h
  exact ⟨List.mem_range.mp hn, by simpa using hp⟩

theorem findProc_eq_none {procs : ℕ → PCB} {n : ℕ} {pid : ℤ} :
    findProc procs n pid = none ↔ ∀ p < n, (procs p).pid ≠ pid := by
  simp [findProc, List.find?_eq_none]

theorem findProc_pid {procs : ℕ → PCB} {n p : ℕ} (hd : DistinctPids procs n) (hp : p < n) :
    findProc procs n (procs p).pid = some p := by
  cases h : findProc procs n (procs p).pid with
  | none => exact absurd rfl (findProc_eq_none.mp h p hp)
  | some q =>
    obtain ⟨hq, he⟩ := findProc_eq_some h
    rw [hd q hq p hp he]

end FleetOS
