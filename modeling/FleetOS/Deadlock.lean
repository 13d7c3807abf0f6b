import FleetOS.CycleSearch
import FleetOS.Thread

/-!
# The resource graph

`deadlock.c` : who holds which resource, who asks for which, the queue of waiters of each
resource, and the search for a deadlock. The tables are functions of the pid and the resource
id; the code uses pids from `0` up to `MAX_PROCS` and resources from `0` up to `NUM_RESOURCES`.

A wait queue is the list of its first `wait_count` entries. The victim callback does not use
the graph, so the operations that call it return the pids it is called for, in order.
-/

namespace FleetOS

def numResources : ℕ := 3
def resourceLandingPad : ℤ := 0
def resourceChargeStation : ℤ := 1
def resourceCommChannel : ℤ := 2

structure ResourceGraph where
  allocation : ℤ → ℤ → ℤ
  request : ℤ → ℤ → ℤ
  available : ℤ → ℤ
  active : ℤ → Bool
  waitPid : ℤ → List ℤ
  priority : ℤ → Priority

/-- The pids and the resource ids the code goes through. -/
def pidIndices : List ℤ := (List.range maxProcs).map fun i : ℕ => (i : ℤ)
def resourceIndices : List ℤ := (List.range numResources).map fun i : ℕ => (i : ℤ)

def validPid (pid : ℤ) : Prop := 0 ≤ pid ∧ pid < maxProcs
def validRid (rid : ℤ) : Prop := 0 ≤ rid ∧ rid < numResources

instance (pid : ℤ) : Decidable (validPid pid) := inferInstanceAs (Decidable (_ ∧ _))
instance (rid : ℤ) : Decidable (validRid rid) := inferInstanceAs (Decidable (_ ∧ _))

/-- Write one entry of a table. -/
def setEntry (table : ℤ → ℤ → ℤ) (pid rid v : ℤ) : ℤ → ℤ → ℤ :=
  Function.update table pid (Function.update (table pid) rid v)

/-! ## Operations -/

/-- `deadlock_init`. The priorities, and the units of the resources that do not exist, stay as
they were. -/
def deadlockInit (g : ResourceGraph) : ResourceGraph :=
  { g with
    allocation := fun _ _ => 0
    request := fun _ _ => 0
    active := fun _ => false
    waitPid := fun _ => []
    available := Function.update (Function.update (Function.update g.available
      resourceLandingPad 1) resourceChargeStation 1) resourceCommChannel 1 }

def deadlockSetPriority (g : ResourceGraph) (pid : ℤ) (p : Priority) : ResourceGraph :=
  if validPid pid then { g with priority := Function.update g.priority pid p } else g

def deadlockAlloc (g : ResourceGraph) (pid rid : ℤ) : ResourceGraph × ℤ :=
  if ¬validPid pid then (g, -1)
  else if ¬validRid rid then (g, -1)
  else if g.available rid ≤ 0 then (g, -1)
  else
    ({ g with
      available := Function.update g.available rid (g.available rid - 1)
      allocation := setEntry g.allocation pid rid (g.allocation pid rid + 1)
      request := setEntry g.request pid rid 0
      active := Function.update g.active pid true }, 0)

/-- `0` if the resource was allocated, `1` if the process holds it already, `-1` if it has to
wait. -/
def deadlockRequest (g : ResourceGraph) (pid rid : ℤ) : ResourceGraph × ℤ :=
  if ¬validPid pid then (g, -1)
  else if ¬validRid rid then (g, -1)
  else if 0 < g.allocation pid rid then (g, 1)
  else
    let g := { g with
      request := setEntry g.request pid rid 1
      active := Function.update g.active pid true }
    if 0 < g.available rid then deadlockAlloc g pid rid
    else if (g.waitPid rid).length < maxProcs then
      ({ g with waitPid := Function.update g.waitPid rid (g.waitPid rid ++ [pid]) }, -1)
    else (g, -1)

def deadlockRelease (g : ResourceGraph) (pid rid : ℤ) : ResourceGraph :=
  if ¬validPid pid then g
  else if ¬validRid rid then g
  else if g.allocation pid rid ≤ 0 then g
  else
    { g with
      allocation := setEntry g.allocation pid rid (g.allocation pid rid - 1)
      available := Function.update g.available rid (g.available rid + 1) }

def isActive (g : ResourceGraph) (pid : ℤ) : Bool :=
  0 ≤ pid ∧ pid < maxProcs ∧ g.active pid

/-- The `while` loop of the cleanup. Each round gives one unit back, so as many rounds as
units are held end it. -/
def releaseAll (pid rid : ℤ) : ℕ → ResourceGraph → ResourceGraph
  | 0, g => g
  | fuel + 1, g =>
    if 0 < g.allocation pid rid then releaseAll pid rid fuel (deadlockRelease g pid rid) else g

def cleanupResource (pid : ℤ) (g : ResourceGraph) (rid : ℤ) : ResourceGraph :=
  let g := releaseAll pid rid (g.allocation pid rid).toNat g
  { g with request := setEntry g.request pid rid 0 }

def deadlockCleanupProcess (g : ResourceGraph) (pid : ℤ) : ResourceGraph :=
  if ¬validPid pid then g
  else
    let g := resourceIndices.foldl (cleanupResource pid) g
    { g with active := Function.update g.active pid false }

/-- What a pass over a wait queue leaves. -/
structure WakeResult where
  graph : ResourceGraph
  /-- The entries of the queue, `-1` where a waiter was taken out. -/
  entries : List ℤ
  /-- The pids the callback is called for. -/
  woken : List ℤ

/-- The first loop of `deadlock_wake_waiters`. -/
def scanWaiters (rid : ℤ) : ResourceGraph → List ℤ → WakeResult
  | g, [] => ⟨g, [], []⟩
  | g, wpid :: rest =>
    if wpid < 0 then
      let r := scanWaiters rid g rest
      { r with entries := wpid :: r.entries }
    else if !isActive g wpid then
      let r := scanWaiters rid g rest
      { r with entries := -1 :: r.entries }
    else if 0 < g.available rid then
      let r := scanWaiters rid (deadlockAlloc g wpid rid).1 rest
      { r with entries := -1 :: r.entries, woken := wpid :: r.woken }
    else
      let r := scanWaiters rid g rest
      { r with entries := wpid :: r.entries }

def deadlockWakeWaiters (g : ResourceGraph) (rid : ℤ) : ResourceGraph × List ℤ :=
  if ¬validRid rid then (g, [])
  else
    let r := scanWaiters rid g (g.waitPid rid)
    ({ r.graph with
      waitPid := Function.update r.graph.waitPid rid (r.entries.filter fun p => 0 ≤ p) }, r.woken)

/-- `deadlock_wake_waiters` for every resource. -/
def wakeAllWaiters (g : ResourceGraph) : ResourceGraph × List ℤ :=
  resourceIndices.foldl
    (fun s rid =>
      let (g, woken) := deadlockWakeWaiters s.1 rid
      (g, s.2 ++ woken))
    (g, [])

def deadlockResolve (g : ResourceGraph) (pid : ℤ) : ResourceGraph × List ℤ :=
  if ¬validPid pid then (g, []) else wakeAllWaiters (deadlockCleanupProcess g pid)

/-! ## The search for a deadlock -/

def hasOutgoingRequest (g : ResourceGraph) (pid : ℤ) : Bool :=
  isActive g pid && resourceIndices.any fun r => 0 < g.request pid r

/-- The processes `dfs_cycle` goes to from `pid`, in the order of its two loops. -/
def waitsFor (g : ResourceGraph) (pid : ℤ) : List ℤ :=
  resourceIndices.flatMap fun r =>
    if g.request pid r ≤ 0 then []
    else pidIndices.filter fun q => isActive g q ∧ q ≠ pid ∧ 0 < g.allocation q r

/-- `dfs_cycle`. A search enters at most `MAX_PROCS` processes. -/
def dfsCycle (g : ResourceGraph) (pid : ℤ) (marks : CycleSearch.Marks ℤ) :
    Bool × CycleSearch.Marks ℤ :=
  CycleSearch.search (waitsFor g) maxProcs pid marks

/-- A victim replaces the one chosen so far if its priority value is larger, or its pid on a
tie. -/
def pickVictim (g : ResourceGraph) (outVictim i : ℤ) : ℤ :=
  if outVictim < 0 ∨ (g.priority outVictim).toNat < (g.priority i).toNat ∨
      ((g.priority i).toNat = (g.priority outVictim).toNat ∧ outVictim < i) then i
  else outVictim

/-- The victim after the search from `pid`. -/
def detectFrom (g : ResourceGraph) (outVictim pid : ℤ) : ℤ :=
  if !isActive g pid then outVictim
  else if !hasOutgoingRequest g pid then outVictim
  else
    let (found, marks) := dfsCycle g pid .empty
    if found then
      (pidIndices.filter fun i => i ∈ marks.inStack ∧ isActive g i).foldl (pickVictim g) outVictim
    else outVictim

/-- The victim that is stored when the call returns `1`, for a pointer that is not null. -/
def deadlockDetect (g : ResourceGraph) : Option ℤ :=
  let outVictim := pidIndices.foldl (detectFrom g) (-1)
  if 0 ≤ outVictim then some outVictim else none

end FleetOS
