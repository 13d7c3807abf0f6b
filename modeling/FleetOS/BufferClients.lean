import FleetOS.BufferQueue
import FleetOS.Counting
import FleetOS.GraphRows
import Mathlib.Logic.Relation

/-!
# No lost wake-up in the bounded buffer

Clients call the buffer in any order. One whose call fails waits until its pid is returned by
the call of another one, and then tries the same operation again; meanwhile a third one may
take what it was woken for. A client that waits may be removed.

Both operations are one pattern (`BufferOp`) : a producer waits on `not_full` for free slots, a
consumer on `not_empty` for items, and each success turns what one kind waits for into what the
other kind waits for (`serve_stock`). While a queue has a waiter, its stock is at most the number
of clients that were woken for it and have not tried again (`Claims`) : who takes a unit gives up
its own claim at most (`Claims.settle`), and a new unit comes with a new claim (`Claims.wake`).
-/

namespace FleetOS

open BoundedBuffer Relation

inductive BufferOp
  | produce
  | consume
  deriving DecidableEq

def BufferOp.other : BufferOp → BufferOp
  | .produce => .consume
  | .consume => .produce

/-- What a client does between its calls : nothing, wait for a wake-up, or try again. -/
inductive ClientStatus
  | idle
  | waiting (op : BufferOp)
  | woken (op : BufferOp)
  deriving DecidableEq

structure Clients where
  buf : BoundedBuffer
  status : ℤ → ClientStatus

/-! ## The steps -/

def bufferOp (b : BoundedBuffer) (item pid : ℤ) : BufferOp → BufferResult
  | .produce => bufferProduce b item pid
  | .consume => bufferConsume b pid

/-- The clients whose pids a call returns stop waiting. -/
def wakeClients (wakePids : List ℤ) (status : ℤ → ClientStatus) (p : ℤ) : ClientStatus :=
  match status p with
  | .waiting op => if p ∈ wakePids then .woken op else .waiting op
  | s => s

def Clients.call (c : Clients) (op : BufferOp) (item pid : ℤ) : Clients :=
  let r := bufferOp c.buf item pid op
  let status := if r.ret = -1 then .waiting op else .idle
  ⟨r.buf, wakeClients r.wakePids (Function.update c.status pid status)⟩

def Clients.remove (c : Clients) (pid : ℤ) : Clients :=
  ⟨bufferRemovePid c.buf pid, Function.update c.status pid .idle⟩

/-- A client that does not wait makes a call, a woken one the same as before, or one that waits
is removed. -/
inductive ClientStep : Clients → Clients → Prop
  | call (c : Clients) (op : BufferOp) (item pid : ℤ) (hp : validPid pid)
      (hready : c.status pid = .idle ∨ c.status pid = .woken op) :
      ClientStep c (c.call op item pid)
  | remove (c : Clients) (op : BufferOp) (pid : ℤ) (hp : validPid pid)
      (hwait : c.status pid = .waiting op) : ClientStep c (c.remove pid)

def clientsInit : Clients := ⟨bufferInit, fun _ => .idle⟩

/-- The number of clients that were woken for an operation and have not tried again. -/
def wokenCount (status : ℤ → ClientStatus) (op : BufferOp) : ℕ :=
  pidIndices.countP fun p => status p = .woken op

/-! ## One pattern for both operations -/

namespace BoundedBuffer

/-- Where the clients of an operation wait. -/
def queue (b : BoundedBuffer) : BufferOp → List ℤ
  | .produce => b.notFull.waitQueue
  | .consume => b.notEmpty.waitQueue

/-- What the clients of an operation wait for : free slots or items. -/
def stock (b : BoundedBuffer) : BufferOp → ℕ
  | .produce => ringBufferSize - b.count
  | .consume => b.count

end BoundedBuffer

theorem BufferOp.other_ne (op : BufferOp) : op.other ≠ op := by
  cases op <;> decide

theorem BufferOp.other_other (op : BufferOp) : op.other.other = op := by
  cases op <;> rfl

theorem BufferOp.eq_or_other (op op' : BufferOp) : op' = op ∨ op' = op.other := by
  cases op <;> cases op' <;> decide

/-- Without stock the call fails, and the client queues at its operation. -/
theorem serve_empty {b : BoundedBuffer} (h : b.Inv) {op : BufferOp} (hs : b.stock op = 0)
    (item pid : ℤ) :
    (bufferOp b item pid op).ret = -1 ∧ (bufferOp b item pid op).wakePids = [] ∧
      (bufferOp b item pid op).buf.Inv ∧ (bufferOp b item pid op).buf.count = b.count ∧
      (bufferOp b item pid op).buf.queue op = (condWait ⟨b.queue op⟩ mutexInit pid).1.waitQueue ∧
      (bufferOp b item pid op).buf.queue op.other = b.queue op.other := by
  cases op with
  | produce =>
    have hfull : ringBufferSize ≤ b.count := Nat.sub_eq_zero_iff_le.mp hs
    have hinv := (produce_full h hfull item pid).2.1
    rw [bufferProduce_full h hfull] at hinv
    rw [bufferOp, bufferProduce_full h hfull]
    exact ⟨rfl, rfl, hinv, rfl, rfl, rfl⟩
  | consume =>
    have hempty : b.count = 0 := hs
    have hinv := (consume_empty h hempty pid).2.2.1
    rw [bufferConsume_empty h hempty] at hinv
    rw [bufferOp, bufferConsume_empty h hempty]
    exact ⟨rfl, rfl, hinv, rfl, rfl, rfl⟩

/-- With stock the call succeeds, and wakes the first client of the other operation. -/
theorem serve_stock {b : BoundedBuffer} (h : b.Inv) {op : BufferOp} (hs : b.stock op ≠ 0)
    (item pid : ℤ) :
    (bufferOp b item pid op).ret = 0 ∧
      (bufferOp b item pid op).wakePids = addWake [] ((b.queue op.other).headD (-1)) ∧
      (bufferOp b item pid op).buf.Inv ∧
      (bufferOp b item pid op).buf.stock op + 1 = b.stock op ∧
      (bufferOp b item pid op).buf.stock op.other = b.stock op.other + 1 ∧
      (bufferOp b item pid op).buf.queue op = b.queue op ∧
      (bufferOp b item pid op).buf.queue op.other = (b.queue op.other).tail := by
  have hle : b.count ≤ ringBufferSize := h.ring_wf.count_le
  cases op with
  | produce =>
    have hroom : b.count < ringBufferSize := by
      simp only [stock] at hs
      omega
    have hinv := (produce_room h hroom item pid).2.1
    rw [bufferProduce_room h hroom] at hinv
    rw [bufferOp, bufferProduce_room h hroom]
    refine ⟨rfl, rfl, hinv, ?_, rfl, rfl, rfl⟩
    simp only [stock]
    omega
  | consume =>
    have hne : b.count ≠ 0 := hs
    obtain ⟨-, -, -, hinv, -⟩ := consume_items h hne pid
    rw [bufferConsume_items h hne] at hinv
    rw [bufferOp, bufferConsume_items h hne]
    refine ⟨rfl, rfl, hinv, ?_, ?_, rfl, rfl⟩
    all_goals
      simp only [stock, BufferOp.other]
      omega

/-! ## The claims of the clients -/

theorem wakeClients_nil (status : ℤ → ClientStatus) : wakeClients [] status = status := by
  funext p
  unfold wakeClients
  cases status p <;> simp

/-- Waking a client that waits. -/
theorem wakeClients_singleton {status : ℤ → ClientStatus} {p : ℤ} {op : BufferOp}
    (h : status p = .waiting op) :
    wakeClients [p] status = Function.update status p (.woken op) := by
  funext q
  unfold wakeClients
  by_cases hq : q = p
  · subst hq
    simp [h]
  · rw [Function.update_of_ne hq]
    cases status q <;> simp [hq]

/-- The queues hold the clients that wait, each once, and a queue with a waiter has no more
stock than clients on their way to it. -/
structure Claims (queue : BufferOp → List ℤ) (stock : BufferOp → ℕ) (status : ℤ → ClientStatus) :
    Prop where
  queued : ∀ op, ∀ p ∈ queue op, validPid p ∧ status p = .waiting op
  nodup : ∀ op, (queue op).Nodup
  stock_le : ∀ op, queue op ≠ [] → stock op ≤ wokenCount status op

/-- Writing one status changes the number of woken clients by that client. -/
theorem wokenCount_update (status : ℤ → ClientStatus) {pid : ℤ} (hp : validPid pid) (op : BufferOp)
    (s : ClientStatus) :
    wokenCount (Function.update status pid s) op + (if status pid = .woken op then 1 else 0) =
      wokenCount status op + (if s = .woken op then 1 else 0) := by
  have := Counting.countP_update (fun s : ClientStatus => decide (s = .woken op)) status s
    nodup_pidIndices (mem_pidIndices.mpr hp)
  simpa only [wokenCount, decide_eq_true_eq] using this

theorem wokenCount_of_ne {status : ℤ → ClientStatus} {pid : ℤ} (hp : validPid pid) {op : BufferOp}
    {s : ClientStatus} (hold : status pid ≠ .woken op) (hnew : s ≠ .woken op) :
    wokenCount (Function.update status pid s) op = wokenCount status op := by
  have := wokenCount_update status hp op s
  rwa [if_neg hold, if_neg hnew] at this

/-- The other operation is none of a client that is ready for this one. -/
theorem ne_woken_other {s : ClientStatus} {op : BufferOp} (h : s = .idle ∨ s = .woken op) :
    s ≠ .woken op.other := by
  rcases h with rfl | rfl
  · exact ClientStatus.noConfusion
  · exact fun he => op.other_ne (ClientStatus.woken.inj he).symm

namespace Claims

variable {queue queue' : BufferOp → List ℤ} {stock stock' : BufferOp → ℕ}
  {status : ℤ → ClientStatus}

/-- A client that is about to make a call is in no queue. -/
theorem not_queued (h : Claims queue stock status) {pid : ℤ} {op : BufferOp}
    (hready : status pid = .idle ∨ status pid = .woken op) (op' : BufferOp) : pid ∉ queue op' := by
  intro hmem
  have hwait := (h.queued op' pid hmem).2
  rcases hready with he | he
  all_goals
    rw [he] at hwait
    cases hwait

/-- Who takes a unit gives up its own claim at most. -/
theorem settle (h : Claims queue stock status) {pid : ℤ} (hp : validPid pid) {op : BufferOp}
    (hready : status pid = .idle ∨ status pid = .woken op) (htaken : stock' op + 1 = stock op)
    (hother : stock' op.other = stock op.other) :
    Claims queue stock' (Function.update status pid .idle) := by
  refine ⟨fun op' p hmem => ?_, h.nodup, fun op' hne => ?_⟩
  · have hpp : p ≠ pid := fun he => h.not_queued hready op' (he ▸ hmem)
    rw [Function.update_of_ne hpp]
    exact h.queued op' p hmem
  · have hle := h.stock_le op' hne
    rcases op.eq_or_other op' with rfl | rfl
    · have hcount := wokenCount_update status hp op' .idle
      split_ifs at hcount <;> omega
    · rwa [wokenCount_of_ne hp (ne_woken_other hready) ClientStatus.noConfusion, hother]

/-- A new unit comes with a claim to it, if there is someone to wake. -/
theorem wake (h : Claims queue stock status) {op : BufferOp}
    (htail : queue' op = (queue op).tail) (hqueue : queue' op.other = queue op.other)
    (hgiven : stock' op = stock op + 1) (hother : stock' op.other = stock op.other) :
    Claims queue' stock' (wakeClients (addWake [] ((queue op).headD (-1))) status) := by
  cases hq : queue op with
  | nil =>
    have hnone : addWake [] (([] : List ℤ).headD (-1)) = [] := rfl
    rw [hq, List.tail_nil] at htail
    rw [hnone, wakeClients_nil]
    refine ⟨fun op' p hmem => ?_, fun op' => ?_, fun op' hne => ?_⟩
    all_goals rcases op.eq_or_other op' with rfl | rfl
    · exact absurd (htail ▸ hmem) List.not_mem_nil
    · exact h.queued op.other p (hqueue ▸ hmem)
    · exact htail ▸ List.nodup_nil
    · exact hqueue ▸ h.nodup op.other
    · exact absurd htail hne
    · exact hother ▸ h.stock_le op.other (hqueue ▸ hne)
  | cons w rest =>
    obtain ⟨hwv, hww⟩ := h.queued op w (hq ▸ List.mem_cons_self)
    have hone : addWake [] ((w :: rest).headD (-1)) = [w] := by
      simp [addWake, hwv.1, maxWakePids]
    rw [hq, List.tail_cons] at htail
    obtain ⟨hnot, hnd⟩ := List.nodup_cons.mp (hq ▸ h.nodup op)
    have hkept : ∀ op', ∀ p ∈ queue op', p ≠ w →
        validPid p ∧ Function.update status w (.woken op) p = .waiting op' := by
      intro op' p hmem hpw
      rw [Function.update_of_ne hpw]
      exact h.queued op' p hmem
    have hnot_woken : ∀ op', status w ≠ .woken op' := by
      intro op' he
      rw [hww] at he
      cases he
    rw [hone, wakeClients_singleton hww]
    refine ⟨fun op' p hmem => ?_, fun op' => ?_, fun op' hne => ?_⟩
    all_goals rcases op.eq_or_other op' with rfl | rfl
    · rw [htail] at hmem
      exact hkept op' p (hq ▸ List.mem_cons_of_mem w hmem) fun he => hnot (he ▸ hmem)
    · rw [hqueue] at hmem
      refine hkept op.other p hmem fun he => ?_
      have hwait := (h.queued op.other p hmem).2
      rw [he, hww] at hwait
      exact op.other_ne (ClientStatus.waiting.inj hwait).symm
    · rw [htail]
      exact hnd
    · rw [hqueue]
      exact h.nodup op.other
    · have hle := h.stock_le op' (hq ▸ List.cons_ne_nil w rest)
      have hcount := wokenCount_update status hwv op' (.woken op')
      rw [if_neg (hnot_woken op'), if_pos rfl] at hcount
      omega
    · have hle := h.stock_le op.other (hqueue ▸ hne)
      rwa [wokenCount_of_ne hwv (hnot_woken op.other) (ne_woken_other (Or.inr rfl)), hother]

/-- A client that fails joins a queue without stock. -/
theorem join (h : Claims queue stock status) {pid : ℤ} (hp : validPid pid) {op : BufferOp}
    (hready : status pid = .idle ∨ status pid = .woken op) (hs : stock op = 0)
    (hjoin : queue' op = (condWait ⟨queue op⟩ mutexInit pid).1.waitQueue)
    (hqueue : queue' op.other = queue op.other) :
    Claims queue' stock (Function.update status pid (.waiting op)) := by
  have hkept : ∀ op', ∀ p ∈ queue op',
      validPid p ∧ Function.update status pid (.waiting op) p = .waiting op' := by
    intro op' p hmem
    have hpp : p ≠ pid := fun he => h.not_queued hready op' (he ▸ hmem)
    rw [Function.update_of_ne hpp]
    exact h.queued op' p hmem
  refine ⟨fun op' p hmem => ?_, fun op' => ?_, fun op' hne => ?_⟩
  all_goals rcases op.eq_or_other op' with rfl | rfl
  · rw [hjoin] at hmem
    rcases mem_condWait hmem with hmem | rfl
    · exact hkept op' p hmem
    · exact ⟨hp, Function.update_self _ _ _⟩
  · rw [hqueue] at hmem
    exact hkept op.other p hmem
  · rw [hjoin]
    exact nodup_condWait (h.nodup op')
  · rw [hqueue]
    exact h.nodup op.other
  · omega
  · rw [wokenCount_of_ne hp (ne_woken_other hready) ClientStatus.noConfusion]
    exact h.stock_le op.other (hqueue ▸ hne)

/-- A client that is removed had no claim. -/
theorem remove (h : Claims queue stock status) {pid : ℤ} (hp : validPid pid) {op : BufferOp}
    (hwait : status pid = .waiting op)
    (hqueue : ∀ op', queue' op' = (queue op').filter fun p => p ≠ pid ∧ 0 ≤ p) :
    Claims queue' stock (Function.update status pid .idle) := by
  refine ⟨fun op' p hmem => ?_, fun op' => ?_, fun op' hne => ?_⟩
  all_goals rw [hqueue] at *
  · obtain ⟨hmem, hpp⟩ := List.mem_filter.mp hmem
    rw [decide_eq_true_eq] at hpp
    rw [Function.update_of_ne hpp.1]
    exact h.queued op' p hmem
  · exact (h.nodup op').filter _
  · have hle := h.stock_le op' fun he => hne (by rw [he]; rfl)
    have hnot : status pid ≠ .woken op' := hwait ▸ ClientStatus.noConfusion
    rwa [wokenCount_of_ne hp hnot ClientStatus.noConfusion]

end Claims

/-! ## Runs -/

/-- The buffer is sound, and its queues and its stock agree with the clients. -/
structure ClientsInv (c : Clients) : Prop where
  buf : c.buf.Inv
  claims : Claims c.buf.queue c.buf.stock c.status

theorem clientsInv_init : ClientsInv clientsInit := by
  refine ⟨inv_bufferInit, fun op p hp => ?_, fun op => ?_, fun op hne => ?_⟩
  · cases op <;> exact absurd hp List.not_mem_nil
  · cases op <;> exact List.nodup_nil
  · cases op <;> exact absurd rfl hne

theorem clientsInv_call {c : Clients} (h : ClientsInv c) {op : BufferOp} (item : ℤ) {pid : ℤ}
    (hp : validPid pid) (hready : c.status pid = .idle ∨ c.status pid = .woken op) :
    ClientsInv (c.call op item pid) := by
  by_cases hs : c.buf.stock op = 0
  · obtain ⟨hret, hwake, hinv, hcount, hjoin, hother⟩ := serve_empty h.buf hs item pid
    have hstock : (bufferOp c.buf item pid op).buf.stock = c.buf.stock := by
      funext op'
      cases op' <;> simp only [stock, hcount]
    refine ⟨hinv, ?_⟩
    simp only [Clients.call, hret, hwake, wakeClients_nil, if_true, hstock]
    exact h.claims.join hp hready hs hjoin hother
  · obtain ⟨hret, hwake, hinv, htaken, hgiven, hqueue, hother⟩ := serve_stock h.buf hs item pid
    have hne : (0 : ℤ) ≠ -1 := by decide
    -- first the client takes its unit, then the other operation gets one
    have hmid : Claims c.buf.queue (Function.update c.buf.stock op (c.buf.stock op - 1))
        (Function.update c.status pid .idle) :=
      h.claims.settle hp hready (by rw [Function.update_self]; omega)
        (Function.update_of_ne op.other_ne _ _)
    refine ⟨hinv, ?_⟩
    simp only [Clients.call, hret, hwake, if_neg hne]
    refine hmid.wake hother ?_ ?_ ?_
    · rw [op.other_other, hqueue]
    · rw [hgiven, Function.update_of_ne op.other_ne]
    · rw [op.other_other, Function.update_self]
      omega

theorem clientsInv_step {c c' : Clients} (h : ClientsInv c) (hstep : ClientStep c c') :
    ClientsInv c' := by
  cases hstep with
  | call op item pid hp hready => exact clientsInv_call h item hp hready
  | remove op pid hp hwait =>
    refine ⟨(removePid_inv h.buf pid).1, h.claims.remove hp hwait fun op' => ?_⟩
    cases op' <;> exact removePid_eq _ _

theorem clientsInv_run {c : Clients} (hrun : ReflTransGen ClientStep clientsInit c) :
    ClientsInv c := by
  induction hrun with
  | refl => exact clientsInv_init
  | tail _ hstep ih => exact clientsInv_step ih hstep

/-- However the calls interleave, no client is left waiting next to an item or a free slot that
nobody is on the way to. -/
theorem no_lost_wakeup {c : Clients} (hrun : ReflTransGen ClientStep clientsInit c) :
    (c.buf.notEmpty.waitQueue ≠ [] → c.buf.count ≤ wokenCount c.status .consume) ∧
      (c.buf.notFull.waitQueue ≠ [] →
        (ringBufferSize : ℤ) - c.buf.count ≤ wokenCount c.status .produce) := by
  obtain ⟨hinv, hclaims⟩ := clientsInv_run hrun
  refine ⟨hclaims.stock_le .consume, fun hne => ?_⟩
  have hle : ringBufferSize - c.buf.count ≤ wokenCount c.status .produce :=
    hclaims.stock_le .produce hne
  omega

/-- Two consumers wait, and a producer wakes the first. -/
def oneWoken : Clients :=
  ((clientsInit.call .consume 0 0).call .consume 0 1).call .produce 7 2

theorem no_lost_wakeup_oneWoken :
    oneWoken.buf.notEmpty.waitQueue = [1] ∧
      oneWoken.buf.count ≤ wokenCount oneWoken.status .consume := by
  have hqueue : oneWoken.buf.notEmpty.waitQueue = [1] := by decide +kernel
  have hstep₁ : ClientStep clientsInit (clientsInit.call .consume 0 0) :=
    .call clientsInit .consume 0 0 (by decide) (Or.inl rfl)
  have hstep₂ : ClientStep (clientsInit.call .consume 0 0)
      ((clientsInit.call .consume 0 0).call .consume 0 1) :=
    .call _ .consume 0 1 (by decide) (Or.inl (by decide +kernel))
  have hstep₃ : ClientStep ((clientsInit.call .consume 0 0).call .consume 0 1) oneWoken :=
    .call _ .produce 7 2 (by decide) (Or.inl (by decide +kernel))
  have hrun : ReflTransGen ClientStep clientsInit oneWoken :=
    ((ReflTransGen.single hstep₁).tail hstep₂).tail hstep₃
  refine ⟨hqueue, (no_lost_wakeup hrun).1 ?_⟩
  rw [hqueue]
  exact List.cons_ne_nil 1 []

end FleetOS
