import FleetOS.Runs
import FleetOS.Sync
import Mathlib.Logic.Function.Basic

/-!
# The waiters of a mutex and its condition variables

A pid that is put in a wait queue is asleep until some call returns it to be woken. Beside the
mutex and its condition variables a state keeps, for every queue, the pids put in it so far and
those returned from it, both in order. Nobody is lost or overtaken while the first list is the
second one followed by the queue (`Accounted`).

`cond_wait` unlocks the mutex and drops the pid that `mutex_unlock` returns, and `cond_broadcast`
empties the queue even when it returns fewer pids than are in it. Along every interleaving these are
the two ways to lose a waiter (`accounted_syncRun_iff`).
-/

namespace FleetOS

/-- The calls on one mutex and its condition variables. -/
inductive SyncCall (ι : Type*)
  | lock (pid : Fin maxThreads)
  | unlock
  | wait (c : ι) (pid : Fin maxThreads)
  | signal (c : ι)
  | broadcast (c : ι) (maxCount : ℤ)

/-- The histories are of the mutex's queue under `none`. -/
structure Waiters (ι : Type*) where
  mutex : Mutex
  cond : ι → CondVar
  queued : Option ι → List ℤ
  returned : Option ι → List ℤ

namespace Waiters

variable {ι : Type*}

def init : Waiters ι where
  mutex := mutexInit
  cond _ := ⟨[]⟩
  queued _ := []
  returned _ := []

def queue (s : Waiters ι) : Option ι → List ℤ
  | none => s.mutex.waitQueue
  | some c => (s.cond c).waitQueue

/-- Every pid put in a queue was returned or is still there, in the order in which they came. -/
def Accounted (s : Waiters ι) : Prop := ∀ q, s.queued q = s.returned q ++ s.queue q

end Waiters

/-- The caller wakes the pid that a call returns, unless it is `-1`. -/
def wakePid (ret : ℤ) : List ℤ := if ret = -1 then [] else [ret]

variable {ι : Type*} [DecidableEq ι]

/-- What a call puts in each queue, at its end. -/
def entering (s : Waiters ι) : SyncCall ι → Option ι → List ℤ
  | .lock pid, none => (mutexLock s.mutex pid).1.waitQueue.drop s.mutex.waitQueue.length
  | .wait c pid, some d =>
    if d = c then
      (condWait (s.cond c) s.mutex pid).1.waitQueue.drop (s.cond c).waitQueue.length
    else []
  | _, _ => []

/-- What a call returns of each queue. -/
def leaving (s : Waiters ι) : SyncCall ι → Option ι → List ℤ
  | .unlock, none => wakePid (mutexUnlock s.mutex).2
  | .signal c, some d => if d = c then wakePid (condSignal (s.cond c)).2 else []
  | .broadcast c maxCount, some d => if d = c then (condBroadcast (s.cond c) maxCount).2 else []
  | _, _ => []

def syncCall (s : Waiters ι) (call : SyncCall ι) : Waiters ι where
  mutex :=
    match call with
    | .lock pid => (mutexLock s.mutex pid).1
    | .unlock => (mutexUnlock s.mutex).1
    | .wait c pid => (condWait (s.cond c) s.mutex pid).2
    | _ => s.mutex
  cond :=
    match call with
    | .wait c pid => Function.update s.cond c (condWait (s.cond c) s.mutex pid).1
    | .signal c => Function.update s.cond c (condSignal (s.cond c)).1
    | .broadcast c maxCount => Function.update s.cond c (condBroadcast (s.cond c) maxCount).1
    | _ => s.cond
  queued q := s.queued q ++ entering s call q
  returned q := s.returned q ++ leaving s call q

/-- Nobody waits for the mutex that `cond_wait` gives up, and a broadcast has room for all. -/
def PassesOn (s : Waiters ι) : SyncCall ι → Prop
  | .wait _ _ => s.mutex.waitQueue = []
  | .broadcast c maxCount => (s.cond c).waitQueue.length ≤ maxCount.toNat
  | _ => True

/-! ## Queues -/

theorem mutexLock_queue (m : Mutex) (pid : ℤ) :
    (mutexLock m pid).1.waitQueue = m.waitQueue ∨
      (mutexLock m pid).1.waitQueue = m.waitQueue ++ [pid] := by
  unfold mutexLock
  split_ifs
  · exact Or.inl rfl
  · exact Or.inl rfl
  · exact Or.inr rfl
  · exact Or.inl rfl

theorem condWait_queue (cv : CondVar) (m : Mutex) (pid : ℤ) :
    (condWait cv m pid).1.waitQueue = cv.waitQueue ∨
      (condWait cv m pid).1.waitQueue = cv.waitQueue ++ [pid] := by
  unfold condWait
  dsimp only
  split_ifs
  · exact Or.inl rfl
  · exact Or.inr rfl
  · exact Or.inl rfl

theorem condWait_mutex (cv : CondVar) (m : Mutex) (pid : ℤ) :
    (condWait cv m pid).2.waitQueue = m.waitQueue.tail := by
  unfold condWait
  dsimp only
  split_ifs <;> rfl

/-- A queue at whose end at most one pid was put. -/
theorem append_drop_of_grown {l l' : List ℤ} {pid : ℤ} (h : l' = l ∨ l' = l ++ [pid]) :
    l ++ l'.drop l.length = l' := by
  rcases h with rfl | rfl
  · rw [List.drop_length, List.append_nil]
  · rw [List.drop_left]

/-- The first of a queue is returned, and the others stay. -/
theorem wakePid_append_tail {l : List ℤ} (h : ∀ pid ∈ l, 0 ≤ pid) :
    wakePid (l.headD (-1)) ++ l.tail = l := by
  cases l with
  | nil => rfl
  | cons a l =>
    have ha := h a List.mem_cons_self
    rw [List.headD_cons, wakePid, if_neg (by omega)]
    rfl

/-! ## Calls -/

variable {s : Waiters ι}

/-- A history stays right where the queue takes in and gives out what the call says. -/
theorem accounted_syncCall_iff (h : s.Accounted) (call : SyncCall ι) : (syncCall s call).Accounted ↔
    ∀ q, s.queue q ++ entering s call q = leaving s call q ++ (syncCall s call).queue q := by
  refine forall_congr' fun q => ?_
  change s.queued q ++ entering s call q = s.returned q ++ leaving s call q ++ _ ↔ _
  rw [h q, List.append_assoc, List.append_assoc, List.append_right_inj]

omit [DecidableEq ι] in
theorem forall_queue {P : Option ι → Prop} (hnone : P none) (hsome : ∀ c, P (some c)) (q : Option ι) :
    P q := by
  cases q with
  | none => exact hnone
  | some c => exact hsome c

theorem accounted_iff_passesOn (h : s.Accounted) (hpid : ∀ q, ∀ pid ∈ s.queue q, 0 ≤ pid)
    (call : SyncCall ι) : (syncCall s call).Accounted ↔ PassesOn s call := by
  rw [accounted_syncCall_iff h]
  cases call with
  | lock pid =>
    refine iff_of_true (forall_queue ?_ fun c => List.append_nil _) trivial
    exact append_drop_of_grown (mutexLock_queue s.mutex pid)
  | unlock =>
    refine iff_of_true (forall_queue ?_ fun c => List.append_nil _) trivial
    exact (List.append_nil _).trans (wakePid_append_tail (hpid none)).symm
  | wait c pid =>
    have hcond : ∀ d, s.queue (some d) ++ entering s (.wait c pid) (some d) =
        leaving s (.wait c pid) (some d) ++ (syncCall s (.wait c pid)).queue (some d) := by
      intro d
      by_cases hd : d = c
      · subst hd
        simp only [entering, leaving, Waiters.queue, syncCall, if_true, Function.update_self,
          List.nil_append]
        exact append_drop_of_grown (condWait_queue _ _ _)
      · simp only [entering, leaving, Waiters.queue, syncCall, if_neg hd, Function.update_of_ne hd,
          List.nil_append, List.append_nil]
    have hmutex : s.queue none ++ [] = [] ++ (syncCall s (.wait c pid)).queue none ↔
        s.mutex.waitQueue = [] := by
      rw [List.append_nil, List.nil_append]
      change s.mutex.waitQueue = (condWait _ _ _).2.waitQueue ↔ _
      rw [condWait_mutex]
      cases s.mutex.waitQueue with
      | nil => exact iff_of_true rfl rfl
      | cons a l => simp
    exact ⟨fun hall => hmutex.mp (hall none), fun hp => forall_queue (hmutex.mpr hp) hcond⟩
  | signal c =>
    refine iff_of_true (forall_queue (List.append_nil _) fun d => ?_) trivial
    by_cases hd : d = c
    · subst hd
      simp only [entering, leaving, Waiters.queue, syncCall, if_true, Function.update_self,
        List.append_nil]
      exact (wakePid_append_tail (hpid (some d))).symm
    · simp only [entering, leaving, Waiters.queue, syncCall, if_neg hd, Function.update_of_ne hd,
        List.nil_append, List.append_nil]
  | broadcast c maxCount =>
    have hself : s.queue (some c) ++ entering s (.broadcast c maxCount) (some c) =
        leaving s (.broadcast c maxCount) (some c) ++
          (syncCall s (.broadcast c maxCount)).queue (some c) ↔
        (s.cond c).waitQueue.length ≤ maxCount.toNat := by
      simp only [entering, leaving, Waiters.queue, syncCall, if_true, Function.update_self,
        condBroadcast, List.append_nil]
      rw [eq_comm, List.take_eq_self_iff]
    refine ⟨fun hall => hself.mp (hall (some c)), fun hp => forall_queue (List.append_nil _) fun d => ?_⟩
    by_cases hd : d = c
    · subst hd
      exact hself.mpr hp
    · simp only [entering, leaving, Waiters.queue, syncCall, if_neg hd, Function.update_of_ne hd,
        List.nil_append, List.append_nil]

theorem nonneg_of_grown {l l' : List ℤ} {n : ℕ} (h : ∀ pid ∈ l, 0 ≤ pid)
    (hl : l' = l ∨ l' = l ++ [(n : ℤ)]) : ∀ pid ∈ l', 0 ≤ pid := by
  rcases hl with rfl | rfl
  · exact h
  · intro pid hpid
    rcases List.mem_append.mp hpid with hpid | hpid
    · exact h pid hpid
    · rw [List.mem_singleton.mp hpid]
      exact Int.natCast_nonneg n

/-- The queues hold pids of clients. -/
theorem nonneg_syncCall (hpid : ∀ q, ∀ pid ∈ s.queue q, 0 ≤ pid) (call : SyncCall ι) :
    ∀ q, ∀ pid ∈ (syncCall s call).queue q, 0 ≤ pid := by
  -- a condition variable other than the one of the call stays as it is
  have hcond : ∀ (c d : ι) (cv : CondVar), (∀ pid ∈ cv.waitQueue, 0 ≤ pid) →
      ∀ pid ∈ (Function.update s.cond c cv d).waitQueue, 0 ≤ pid := by
    intro c d cv hcv
    by_cases hd : d = c
    · subst hd
      rw [Function.update_self]
      exact hcv
    · rw [Function.update_of_ne hd]
      exact hpid (some d)
  cases call with
  | lock pid => exact forall_queue (nonneg_of_grown (hpid none) (mutexLock_queue _ _)) fun d => hpid (some d)
  | unlock =>
    exact forall_queue (fun pid hm => hpid none pid (List.mem_of_mem_tail hm)) fun d => hpid (some d)
  | wait c pid =>
    refine forall_queue (fun pid hm => hpid none pid ?_) fun d => hcond c d _ ?_
    · rw [Waiters.queue, syncCall, condWait_mutex] at hm
      exact List.mem_of_mem_tail hm
    · exact nonneg_of_grown (hpid (some c)) (condWait_queue _ _ _)
  | signal c =>
    exact forall_queue (hpid none) fun d => hcond c d _ fun pid hm =>
      hpid (some c) pid (List.mem_of_mem_tail hm)
  | broadcast c maxCount =>
    exact forall_queue (hpid none) fun d => hcond c d _ fun pid hm => absurd hm List.not_mem_nil

/-! ## Runs -/

def syncRun (calls : List (SyncCall ι)) : Waiters ι := calls.foldl syncCall .init

/-- Along every interleaving the waiters of all queues are accounted for exactly where no thread
gives up, in `cond_wait`, a mutex that others wait for, and every broadcast has room for all. -/
theorem accounted_syncRun_iff (calls : List (SyncCall ι)) :
    (∀ n (hn : n < calls.length), (syncCall (syncRun (calls.take n)) calls[n]).Accounted) ↔
      ∀ n (hn : n < calls.length), PassesOn (syncRun (calls.take n)) calls[n] := by
  have hstep : ∀ (s : Waiters ι) (call : SyncCall ι),
      (s.Accounted ∧ ∀ q, ∀ pid ∈ s.queue q, 0 ≤ pid) →
        ((syncCall s call).Accounted ↔ PassesOn s call) ∧ (PassesOn s call →
          (syncCall s call).Accounted ∧ ∀ q, ∀ pid ∈ (syncCall s call).queue q, 0 ≤ pid) := by
    rintro s call ⟨h, hpid⟩
    have hiff := accounted_iff_passesOn h hpid call
    exact ⟨hiff, fun hp => ⟨hiff.mpr hp, nonneg_syncCall hpid call⟩⟩
  refine Machine.along_iff hstep ⟨forall_queue rfl fun c => rfl, ?_⟩ calls
  exact forall_queue (fun pid hm => absurd hm List.not_mem_nil)
    fun c pid hm => absurd hm List.not_mem_nil

/-- Pid `1` waits for the mutex that pid `0` gives up in `cond_wait`, and is in no queue afterwards.
Of two waiters a broadcast with room for one returns the first, and the second is lost. -/
theorem waiters_lost :
    let pid₀ : Fin maxThreads := ⟨0, by decide⟩
    let pid₁ : Fin maxThreads := ⟨1, by decide⟩
    let locked : List (SyncCall Unit) := [.lock pid₀, .lock pid₁]
    let waiting : List (SyncCall Unit) := [.wait () pid₀, .wait () pid₁]
    ((syncRun locked).queue none = [1] ∧
      (syncRun (locked ++ [.wait () pid₀])).queue none = [] ∧
      (syncRun (locked ++ [.wait () pid₀])).returned none = []) ∧
    ((syncRun waiting).queue (some ()) = [0, 1] ∧
      (syncRun (waiting ++ [.broadcast () 1])).queue (some ()) = [] ∧
      (syncRun (waiting ++ [.broadcast () 1])).returned (some ()) = [0]) ∧
    ¬(syncRun (locked ++ [.wait () pid₀])).Accounted ∧
      ¬(syncRun (waiting ++ [.broadcast () 1])).Accounted := by
  intro pid₀ pid₁ locked waiting
  refine ⟨by decide, by decide, fun h => ?_, fun h => ?_⟩
  · exact absurd (h none) (by decide)
  · exact absurd (h (some ())) (by decide)

end FleetOS
