import FleetOS.Thread

/-!
# Mutex, condition variables and the bounded buffer

`sync.c`. A wait queue is the list of its first `wait_count` entries; what the array holds
behind them is never read. `buffer_produce` and `buffer_consume` return their result, the
item for a consumer, and the pids the caller has to wake.
-/

namespace FleetOS

def ringBufferSize : ℕ := 8
def maxWakePids : ℕ := 4

structure Mutex where
  locked : Bool
  ownerPid : ℤ
  waitQueue : List ℤ

structure CondVar where
  waitQueue : List ℤ

structure BoundedBuffer where
  buffer : ℕ → ℤ
  inPos : ℕ
  outPos : ℕ
  count : ℕ
  mutex : Mutex
  notFull : CondVar
  notEmpty : CondVar

/-! ## Mutex and condition variable -/

def mutexInit : Mutex where
  locked := false
  ownerPid := -1
  waitQueue := []

/-- `0` if the lock was taken, `-1` if the caller has to wait. -/
def mutexLock (m : Mutex) (pid : ℤ) : Mutex × ℤ :=
  if !m.locked then ({ m with locked := true, ownerPid := pid }, 0)
  else if pid ∈ m.waitQueue then (m, -1)
  else if m.waitQueue.length < maxProcs then ({ m with waitQueue := m.waitQueue ++ [pid] }, -1)
  else (m, -1)

/-- The first waiter leaves the queue and is returned, `-1` if there is none. -/
def mutexUnlock (m : Mutex) : Mutex × ℤ :=
  ({ locked := false, ownerPid := -1, waitQueue := m.waitQueue.tail }, m.waitQueue.headD (-1))

/-- Give up the mutex and queue on the condition. The pid that `mutex_unlock` returns is
dropped. -/
def condWait (cv : CondVar) (m : Mutex) (pid : ℤ) : CondVar × Mutex :=
  let m := (mutexUnlock m).1
  if pid ∈ cv.waitQueue then (cv, m)
  else if cv.waitQueue.length < maxThreads then (⟨cv.waitQueue ++ [pid]⟩, m)
  else (cv, m)

def condSignal (cv : CondVar) : CondVar × ℤ :=
  (⟨cv.waitQueue.tail⟩, cv.waitQueue.headD (-1))

/-- Empty the queue and return its first `maxCount` pids. -/
def condBroadcast (cv : CondVar) (maxCount : ℤ) : CondVar × List ℤ :=
  (⟨[]⟩, cv.waitQueue.take maxCount.toNat)

/-! ## The bounded buffer -/

def bufferInit : BoundedBuffer where
  buffer _ := 0
  inPos := 0
  outPos := 0
  count := 0
  mutex := mutexInit
  notFull := ⟨[]⟩
  notEmpty := ⟨[]⟩

/-- Overwrite the entries equal to `pid` by `-1`, then keep the entries that are not
negative. -/
def removePid (queue : List ℤ) (pid : ℤ) : List ℤ :=
  (queue.map fun p => if p = pid then -1 else p).filter fun p => 0 ≤ p

def bufferRemovePid (b : BoundedBuffer) (pid : ℤ) : BoundedBuffer :=
  { b with
    notFull := ⟨removePid b.notFull.waitQueue pid⟩
    notEmpty := ⟨removePid b.notEmpty.waitQueue pid⟩
    mutex := { b.mutex with waitQueue := removePid b.mutex.waitQueue pid } }

/-- The result of a call, `item` only where the code writes it. -/
structure BufferResult where
  buf : BoundedBuffer
  ret : ℤ
  item : Option ℤ
  wakePids : List ℤ

/-- Collect a pid to wake, unless there is none or the caller's array is full. -/
def addWake (wakePids : List ℤ) (pid : ℤ) : List ℤ :=
  if 0 ≤ pid ∧ wakePids.length < maxWakePids then wakePids ++ [pid] else wakePids

def bufferProduce (b : BoundedBuffer) (item pid : ℤ) : BufferResult :=
  let (mutex, locked) := mutexLock b.mutex pid
  if locked < 0 then ⟨{ b with mutex := mutex }, -1, none, []⟩
  else if ringBufferSize ≤ b.count then
    let (notFull, mutex) := condWait b.notFull mutex pid
    ⟨{ b with notFull := notFull, mutex := mutex }, -1, none, []⟩
  else
    let (notEmpty, signalled) := condSignal b.notEmpty
    let (mutex, unlocked) := mutexUnlock mutex
    ⟨{ b with
        buffer := Function.update b.buffer b.inPos item
        inPos := (b.inPos + 1) % ringBufferSize
        count := b.count + 1
        notEmpty := notEmpty
        mutex := mutex },
      0, none, addWake (addWake [] signalled) unlocked⟩

def bufferConsume (b : BoundedBuffer) (pid : ℤ) : BufferResult :=
  let (mutex, locked) := mutexLock b.mutex pid
  if locked < 0 then ⟨{ b with mutex := mutex }, -1, none, []⟩
  else if b.count = 0 then
    let (notEmpty, mutex) := condWait b.notEmpty mutex pid
    ⟨{ b with notEmpty := notEmpty, mutex := mutex }, -1, none, []⟩
  else
    let (notFull, signalled) := condSignal b.notFull
    let (mutex, unlocked) := mutexUnlock mutex
    ⟨{ b with
        outPos := (b.outPos + 1) % ringBufferSize
        count := b.count - 1
        notFull := notFull
        mutex := mutex },
      0, some (b.buffer b.outPos), addWake (addWake [] signalled) unlocked⟩

def bufferReleaseMutex (b : BoundedBuffer) (pid : ℤ) : BoundedBuffer :=
  if b.mutex.locked ∧ b.mutex.ownerPid = pid then { b with mutex := (mutexUnlock b.mutex).1 }
  else b

end FleetOS
