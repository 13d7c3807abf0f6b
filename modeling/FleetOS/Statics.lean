import FleetOS.KernelLog

/-!
# The static variables

A whole simulation as `main` runs it : `kernel_init`, `kernel_run` and `kernel_get_metrics`, from
any values of the static variables (`simulate`), and the two runs of `--compare` one after the
other (`compareModes`). The state is that of the kernel with the variables that only the log and
the interactive mode use.

The interactive mode is the parameter `interact`, what `process_interactive` makes of its three
variables at a tick and what it prints; only an interactive configuration calls it. `Interactive`
has the function itself.
`victim_cb` is left out : `kernel_init` sets it to the only callback there is. So are the tables of
quanta and commands, which nothing writes to.
-/

namespace FleetOS

open Printing TwoRuns

structure LaunchConfig extends KernelConfig where
  compareEnabled : Bool
  interactive : Bool

/-- The variables that `process_interactive` writes. -/
structure Controls where
  running : Bool
  interactivePaused : Bool
  stepTarget : ℤ

structure Statics where
  kernel : Kernel
  compareEnabled : Bool
  interactive : Bool
  controls : Controls
  clocks : Clocks

def schedModeToString : SchedMode → CString
  | .rr => "RR".toList
  | .mlfq => "MLFQ".toList

/-! ## Initialisation -/

/-- The lines of one process in the loop of `kernel_init`. -/
def bootProcessLog (k : Kernel) (spec : ProcessSpec × ℕ) : List CString :=
  let p := spec.2
  let k := k.setProc p fun c => { c with arrivalTime := spec.1.arrivalTime }
  let pid := (k.procs p).pid
  let k₁ := bootPage p k 0
  memAllocatePageLog k.mem (k.procs p) 0 ++ memAllocatePageLog k₁.mem (k₁.procs p) 1 ++
    spec.1.threads.map fun t => loggerLog 0 "THREAD" .info "Thread created" (dataObject 128
      [intField "tid" t.tid, intField "owner_pid" pid])

def configJson (cfg : LaunchConfig) : CString :=
  dataObject 256 [textField "mode" (schedModeToString cfg.schedMode),
    intField "max_ticks" cfg.maxTicks, boolField "deadlock" cfg.deadlockEnabled,
    boolField "crash" cfg.crashEnabled, boolField "compare" cfg.compareEnabled,
    boolField "interactive" cfg.interactive]

def kernelInitLog (k₀ : Kernel) (cfg : LaunchConfig) (workload : List ProcessSpec) :
    List CString :=
  foldOut bootProcess bootProcessLog (clearedKernel k₀ cfg.toKernelConfig workload)
      workload.zipIdx ++
    [loggerLog 0 "KERNEL" .info "Simulation started" (configJson cfg)]

def initStatics (s : Statics) (cfg : LaunchConfig) (workload : List ProcessSpec) : Statics :=
  { s with
    kernel := kernelInit s.kernel cfg.toKernelConfig workload
    compareEnabled := cfg.compareEnabled
    interactive := cfg.interactive
    controls := { s.controls with running := true } }

/-! ## The loop -/

section run

variable (interact : ℤ → Controls → Controls × List CString)

/-- Whether the loop logs its end and stops. -/
def Kernel.timeUp (k : Kernel) : Bool := 0 < k.config.maxTicks ∧ k.config.maxTicks ≤ k.currentTick

/-- One part of the loop of `kernel_run`, with all static variables. -/
def loopStep : Statics × Phase → Statics × Phase
  | (s, .top) =>
    let tick := s.kernel.currentTick
    if !s.controls.running ∨ s.kernel.timeUp then (s, .halted)
    else
      let controls := if s.interactive then (interact tick s.controls).1 else s.controls
      let s := { s with controls := controls }
      if !controls.running then (s, .halted)
      else
        let r := machineStep (s.kernel, .top)
        ({ s with kernel := r.1, clocks := ⟨tick, tick⟩ }, r.2)
  | (s, ph) =>
    let r := machineStep (s.kernel, ph)
    ({ s with kernel := r.1 }, r.2)

def loopLog : Statics × Phase → List CString
  | (s, .top) =>
    if !s.controls.running then []
    else if s.kernel.timeUp then partLog s.clocks (s.kernel, .top)
    else if s.interactive then (interact s.kernel.currentTick s.controls).2
    else []
  | (s, ph) => partLog s.clocks (s.kernel, ph)

/-- `kernel_run` with what it prints. A tick has at most 16 parts, so this many are enough for
the loop to come to its end; `none` if it has not. -/
def kernelRun (s : Statics) : Option (Statics × List CString) :=
  let n := 16 * (s.kernel.config.maxTicks - s.kernel.currentTick).toNat + 1
  let r := (loopStep interact)^[n] (s, .top)
  if r.2 = .halted then some (r.1, runOut (loopStep interact) (loopLog interact) n (s, .top))
  else none

end run

/-! ## Metrics -/

/-- The averages are the quotients before they are rounded to a `double`. -/
structure KernelMetrics where
  mode : CString
  ticksRun : ℤ
  contextSwitches : ℤ
  priorityBoosts : ℤ
  totalWait : ℤ
  maxWait : ℤ
  avgWait : ℚ
  avgTurnaround : ℚ
  maxTurnaround : ℤ
  terminatedCount : ℤ

def kernelGetMetrics (k : Kernel) : KernelMetrics :=
  let pcbs := (List.range k.procCount).map k.procs
  let waits : List ℤ := pcbs.map PCB.waitTime
  let turnarounds : List ℤ := (pcbs.filter fun c => 0 ≤ c.completionTick).map fun c =>
    c.completionTick - c.arrivalTime
  { mode := schedModeToString k.config.schedMode
    ticksRun := k.currentTick
    contextSwitches := k.sched.contextSwitches
    priorityBoosts := k.sched.priorityBoostCount
    totalWait := waits.sum
    maxWait := waits.foldl max 0
    avgWait := if 0 < k.procCount then ((waits.sum : ℤ) : ℚ) / k.procCount else 0
    avgTurnaround :=
      if 0 < turnarounds.length then ((turnarounds.sum : ℤ) : ℚ) / turnarounds.length else 0
    maxTurnaround := turnarounds.foldl max 0
    terminatedCount := pcbs.countP fun c => c.state = .terminated }

/-! ## Whole simulations -/

/-- What a simulation leaves, prints and measures. -/
structure Simulation where
  statics : Statics
  lines : List CString
  metrics : KernelMetrics

def simulate (interact : ℤ → Controls → Controls × List CString) (s : Statics)
    (cfg : LaunchConfig) (workload : List ProcessSpec) : Option Simulation :=
  (kernelRun interact (initStatics s cfg workload)).map fun r =>
    ⟨r.1, kernelInitLog s.kernel cfg workload ++ r.2, kernelGetMetrics r.1.kernel⟩

/-- `kernel_shutdown` : every process gives its frames back, and both tables are empty. -/
def kernelShutdown (s : Statics) : Statics :=
  let k := s.kernel
  let mem := (List.range k.procCount).foldl
    (fun mem p => (memFreeProcess mem (k.procs p)).1) (memSetTick k.mem k.currentTick)
  { s with
    kernel := { k with mem := mem, procCount := 0, threadCount := 0 }
    controls := { s.controls with running := false } }

/-- The two simulations of `--compare`. -/
def compareModes (interact : ℤ → Controls → Controls × List CString) (s : Statics)
    (cfg : LaunchConfig) (workload : List ProcessSpec) : Option (Simulation × Simulation) := do
  let rr ← simulate interact s { cfg with schedMode := .rr } workload
  let mlfq ← simulate interact (kernelShutdown rr.statics) { cfg with schedMode := .mlfq } workload
  pure (rr, mlfq)

end FleetOS
